/-
Nothing is lost, doubled or reordered on the way of the logs.

The invariant has four parts. The buffer numbers the chunks of a stream
from 1 on, whatever was acknowledged (`SpoolInv`): no call is
interrupted here, so the cursor is always past the last chunk. What is
on its way was written by the agent. The control plane has stored the
first chunks of every stream, in redacted form, and confirms no more
than it has (`ServerInv`). And a chunk that is no longer in the buffer
is one the control plane has (`kept`).
-/
import Yunling.Logstream.Proofs.Files
import Yunling.Logstream.Proofs.Store
import Yunling.Logstream.Transport

namespace Yunling.Logstream

open Relational Utf8 Secret

-- ======== the buffer

/-- The buffer against everything that was written to it. -/
structure SpoolInv (disk : Disk) (written : List LogChunk) : Prop where
  numbers : ∀ key, (written.filter (·.key = key)).map LogChunk.sequence
    = List.range' 1 (written.filter (·.key = key)).length
  cursor : ∀ key, (disk.cursors.get? key).map PNat.val
    = if written.filter (·.key = key) = [] then none
      else some ((written.filter (·.key = key)).length + 1)
  rows : ∀ c ∈ disk.chunks.rows, c ∈ written

section SpoolInv

variable {disk : Disk} {written : List LogChunk} {s : Spool}

theorem SpoolInv.sequence_mem (h : SpoolInv disk written) {c : LogChunk} (hc : c ∈ written) :
    1 ≤ c.sequence ∧ c.sequence ≤ (written.filter (·.key = c.key)).length := by
  have hmem : c.sequence ∈ (written.filter (·.key = c.key)).map LogChunk.sequence :=
    List.mem_map.mpr ⟨c, List.mem_filter.mpr ⟨hc, by simp⟩, rfl⟩
  rw [h.numbers, List.mem_range'_1] at hmem
  omega

/-- The next chunk follows the last one that was written. -/
theorem SpoolInv.nextSequence (h : SpoolInv disk written) (key : Key) :
    (disk.nextSequence key : Nat) = (written.filter (·.key = key)).length + 1 := by
  have hcur := h.cursor key
  have hlow : (written.filter (·.key = key)).length < disk.nextSequence key := by
    rw [Disk.lt_nextSequence]
    by_cases hnil : written.filter (·.key = key) = []
    · exact Or.inl (by rw [hnil]; rfl)
    rw [if_neg hnil, Option.map_eq_some_iff] at hcur
    obtain ⟨m, hm, hval⟩ := hcur
    exact Or.inr (Or.inl ⟨m, hm, by
      omega⟩)
  have hhigh : ¬ (written.filter (·.key = key)).length + 1 < disk.nextSequence key := by
    rw [Disk.lt_nextSequence]
    rintro (hzero | ⟨m, hm, hlt⟩ | ⟨c, hc, hle⟩)
    · omega
    · rw [hm, Option.map_some] at hcur
      split at hcur
      · cases hcur
      · have : (m : Nat) = _ := Option.some.inj hcur
        omega
    · obtain ⟨hrow, hkey⟩ := Disk.mem_pending.mp hc
      have := (h.sequence_mem (h.rows c hrow)).2
      rw [hkey] at this
      omega
  omega

theorem SpoolInv.append {key : Key} {content : Bytes} {now : Nat → Int} {result : List LogChunk}
    (h : SpoolInv s.disk written) (hok : (s.append key content now none).2 = .ok result) :
    SpoolInv (s.append key content now none).1.disk (written ++ result) := by
  have hnext := h.nextSequence key
  obtain ⟨hrows, hcur⟩ := Spool.append_disk hok
  obtain ⟨-, -, rfl⟩ := Spool.append_ok hok
  have hkeys : ∀ c ∈ s.newChunks key content now, c.key = key :=
    fun c hc => (mem_number key now hc).1
  have hself : (s.newChunks key content now).filter (·.key = key) = s.newChunks key content now :=
    List.filter_eq_self.mpr fun c hc => decide_eq_true (hkeys c hc)
  have hother : ∀ other, other ≠ key →
      (s.newChunks key content now).filter (·.key = other) = [] := by
    intro other hne
    rw [List.filter_eq_nil_iff]
    intro c hc heq
    exact hne ((of_decide_eq_true heq).symm.trans (hkeys c hc))
  constructor
  · intro other
    rw [List.filter_append]
    by_cases hkey : other = key
    · subst hkey
      rw [hself, List.map_append, h.numbers, List.length_append,
        Spool.newChunks, sequence_number, length_number, hnext,
        Nat.add_comm _ 1, List.range'_append_1]
    · rw [hother other hkey, List.append_nil]
      exact h.numbers other
  · intro other
    rw [List.filter_append, hcur other]
    by_cases hkey : other = key
    · subst hkey
      rw [hself]
      by_cases hnil : s.newChunks other content now = []
      · rw [hnil]
        simpa using h.cursor other
      have hval : (advance (s.disk.nextSequence other) (s.newChunks other content now).length).val
          = (written.filter (·.key = other)).length
            + (s.newChunks other content now).length + 1 := by
        show (s.disk.nextSequence other : Nat) + _ = _
        omega
      simp [hnil, hval]
    · rw [hother other hkey, List.append_nil, if_neg fun h => hkey h.1]
      exact h.cursor other
  · intro c hc
    rw [hrows, List.mem_append] at hc
    exact List.mem_append.mpr (hc.imp_left (h.rows c))

theorem SpoolInv.acknowledge (h : SpoolInv s.disk written) (key : Key) (nextSequence : Nat)
    (cut : Option Nat) : SpoolInv (s.acknowledge key nextSequence cut).1.disk written := by
  obtain ⟨gone, hops, -⟩ := s.acknowledged_spec key nextSequence cut
  obtain ⟨hrows, hcur⟩ := s.disk.removeAll gone
  show SpoolInv (s.performAll _).disk written
  rw [Spool.performAll_disk, hops]
  refine ⟨h.numbers, fun other => ?_, fun c hc => ?_⟩
  · rw [hcur]
    exact h.cursor other
  · exact h.rows c ((hrows c).mp hc).1

end SpoolInv

-- ======== the control plane

namespace LogWorld

variable {wide : Bytes → Bytes} {redacting : Bool} {w w' : LogWorld} {c : LogChunk}

theorem Redacted.mono {content : Bytes} (h : w.Redacted wide redacting c content)
    (hbound : w.bound ⊆ w'.bound) : w'.Redacted wide redacting c content := by
  cases redacting with
  | false => exact h
  | true =>
    obtain ⟨values, ordered, hmem, hrest⟩ := h
    exact ⟨values, ordered, hbound hmem, hrest⟩

/-- `chunk` is a chunk the agent wrote, redacted. -/
def Genuine (w : LogWorld) (wide : Bytes → Bytes) (redacting : Bool) (chunk : LogChunk) : Prop :=
  ∃ c ∈ w.written, c.path = chunk.path ∧ w.Redacted wide redacting c chunk.content

theorem Genuine.mono (h : w.Genuine wide redacting c) (hwritten : w.written ⊆ w'.written)
    (hbound : w.bound ⊆ w'.bound) : w'.Genuine wide redacting c := by
  obtain ⟨d, hd, hpath, hform⟩ := h
  exact ⟨d, hwritten hd, hpath, hform.mono hbound⟩

/-- How many chunks of a stream are stored. -/
def stored (w : LogWorld) (key : Key) : Nat := (w.store.stream key).length

/-- The store, the calls on their way to it, and what was confirmed. -/
structure ServerInv (w : LogWorld) (wide : Bytes → Bytes) (redacting : Bool) : Prop where
  numbered : ∀ key, w.store.Numbered key (w.stored key)
  forms : ∀ r ∈ w.store.logChunks.rows, w.Genuine wide redacting r
  calls : ∀ call ∈ w.calls, w.Genuine wide redacting call.chunk
    ∧ ∀ m, call.next = some m → m ≤ w.stored call.chunk.key + 1
  acks : ∀ a ∈ w.acks, a.nextSequence ≤ w.stored a.key + 1

section ServerInv

variable (h : w.ServerInv wide redacting)

include h

/-- Steps of the agent leave the control plane alone. -/
theorem ServerInv.of_client (hstore : w'.store.logChunks = w.store.logChunks)
    (hcalls : w'.calls = w.calls) (hacks : w'.acks = w.acks) (hwritten : w.written ⊆ w'.written)
    (hbound : w.bound ⊆ w'.bound) : w'.ServerInv wide redacting := by
  have hstream : ∀ key, w'.store.stream key = w.store.stream key := by
    intro key
    unfold ChunkStore.stream
    rw [hstore]
  have hcount : ∀ key, w'.stored key = w.stored key := fun key =>
    congrArg List.length (hstream key)
  constructor
  · intro key
    unfold ChunkStore.Numbered
    rw [hstream, hcount]
    exact h.numbered key
  · intro r hr
    rw [hstore] at hr
    exact (h.forms r hr).mono hwritten hbound
  · intro call hcall
    rw [hcalls] at hcall
    obtain ⟨hgen, hnext⟩ := h.calls call hcall
    exact ⟨hgen.mono hwritten hbound, by rw [hcount]; exact hnext⟩
  · intro a ha
    rw [hacks] at ha
    rw [hcount]
    exact h.acks a ha

/-- Every number up to the count is that of a stored chunk. -/
theorem ServerInv.exists_row {key : Key} {n : Nat} (hlo : 1 ≤ n) (hhi : n ≤ w.stored key) :
    ∃ r ∈ w.store.logChunks.rows, r.path = (key, n) := by
  have hmem : n ∈ (w.store.stream key).map LogChunk.sequence := by
    rw [show (w.store.stream key).map LogChunk.sequence = _ from
      h.numbered key, List.mem_range'_1]
    omega
  obtain ⟨r, hr, rfl⟩ := List.mem_map.mp hmem
  obtain ⟨hrow, hkey⟩ := List.mem_filter.mp hr
  exact ⟨r, hrow, by rw [← of_decide_eq_true hkey]; rfl⟩

theorem ServerInv.arrive (hsent : ∀ c ∈ w.sent, c ∈ w.written)
    (hvalues : ∀ runID token values, w.values.get? (runID, token) = some values →
      ⟨runID, token, values⟩ ∈ w.bound) (i : Nat) (now : Int) (ordered : List Bytes) :
    (w.arrive wide redacting i now ordered).ServerInv wide redacting := by
  unfold LogWorld.arrive
  split
  · exact h
  next c hc =>
  split
  · exact h
  next r hr =>
  split
  · exact h
  next chunk hprep =>
  obtain ⟨hpath, hcontent⟩ := prepare_ok hprep
  have hform : w.Redacted wide redacting c chunk.content := by
    unfold redaction at hr
    cases redacting with
    | false =>
      cases hr
      exact (Option.some.inj hcontent).symm
    | true =>
      simp only [Bool.true_eq_false, if_false] at hr
      split at hr
      · cases hr
        cases hcontent
      next values hget =>
      split at hr
      · next hord =>
        cases hr
        exact ⟨values, ordered, hvalues _ _ _ hget, hord, (Option.some.inj hcontent).symm⟩
      · cases hr
  refine ⟨h.numbered, h.forms, fun call hcall => ?_, h.acks⟩
  rcases List.mem_append.mp hcall with hcall | hcall
  · exact h.calls call hcall
  · obtain rfl := List.mem_singleton.mp hcall
    exact ⟨⟨c, hsent c (List.mem_of_getElem? hc), hpath.symm, hform⟩, fun m hm => by cases hm⟩

theorem ServerInv.read (i : Nat) : (w.read i).ServerInv wide redacting := by
  unfold LogWorld.read
  split
  · exact h
  next call hcall =>
  refine ⟨h.numbered, h.forms, fun other hother => ?_, h.acks⟩
  rcases List.mem_or_eq_of_mem_set hother with hother | rfl
  · exact h.calls other hother
  · refine ⟨(h.calls call (List.mem_of_getElem? hcall)).1, fun m hm => ?_⟩
    cases hm
    rw [(h.numbered call.chunk.key).nextSequence]
    exact le_rfl

/-- A chunk that is added to the store is the next of its stream. -/
theorem ServerInv.next_eq {chunk : LogChunk} {next : Nat} (hseq : chunk.sequence = next)
    (hpos : 1 ≤ chunk.sequence) (hnext : next ≤ w.stored chunk.key + 1)
    (hfresh : ∀ r ∈ w.store.logChunks.rows, r.path ≠ chunk.path) :
    chunk.sequence = w.stored chunk.key + 1 := by
  by_contra hne
  obtain ⟨r, hr, hpath⟩ := h.exists_row hpos (show chunk.sequence ≤ w.stored chunk.key by omega)
  exact hfresh r hr hpath

end ServerInv

/-- The store after a call, stream by stream. -/
theorem stream_append {st st' : ChunkStore} (h : st'.logChunks.rows = st.logChunks.rows ++ [c])
    (key : Key) : st'.stream key = st.stream key ++ if c.key = key then [c] else [] := by
  unfold ChunkStore.stream
  rw [h]
  by_cases hkey : c.key = key <;> simp [hkey]

/-- What the store of one step is to that of the step before: the same
chunks, or one more at the end of its stream. -/
theorem ServerInv.save_store (h : w.ServerInv wide redacting)
    {chunk : LogChunk} {next : Nat} (hpos : 1 ≤ chunk.sequence)
    (hnext : next ≤ w.stored chunk.key + 1) : (∀ key, (w.store.save chunk next).1.Numbered key
        ((w.store.save chunk next).1.stream key).length)
      ∧ (∀ r ∈ (w.store.save chunk next).1.logChunks.rows, r ∈ w.store.logChunks.rows ∨ r = chunk)
      ∧ ∀ key, w.stored key ≤ ((w.store.save chunk next).1.stream key).length := by
  rcases (w.store.save_cases chunk next).1 with heq | ⟨hseq, hrows, hfresh⟩
  · rw [heq]
    exact ⟨h.numbered, fun r hr => Or.inl hr, fun key => le_rfl⟩
  have hlast := h.next_eq hseq hpos hnext hfresh
  refine ⟨fun key => ?_, fun r hr => ?_, fun key => ?_⟩
  · have hnum : (w.store.stream key).map LogChunk.sequence
        = List.range' 1 (w.store.stream key).length := h.numbered key
    unfold ChunkStore.Numbered
    rw [stream_append hrows]
    by_cases hkey : chunk.key = key
    · subst hkey
      rw [if_pos rfl, List.map_append, hnum, List.length_append,
        List.length_singleton, List.range'_concat, List.map_singleton,
        hlast, Nat.one_mul, Nat.add_comm 1]
      rfl
    · rw [if_neg hkey, List.append_nil]
      exact hnum
  · rw [hrows, List.mem_append, List.mem_singleton] at hr
    exact hr
  · rw [stream_append hrows, List.length_append]
    exact Nat.le_add_right _ _

theorem ServerInv.save (h : w.ServerInv wide redacting) (hpos : ∀ c ∈ w.written, 1 ≤ c.sequence)
    (i : Nat) :
    (w.save i).ServerInv wide redacting ∧ ∀ key, w.stored key ≤ (w.save i).stored key := by
  unfold LogWorld.save
  split
  · next chunk next hcall =>
    obtain ⟨hgen, hnext⟩ := h.calls _ (List.mem_of_getElem? hcall)
    have hnext : next ≤ w.stored chunk.key + 1 := hnext next rfl
    have hone : 1 ≤ chunk.sequence := by
      obtain ⟨c, hc, hpath, -⟩ := hgen
      have hsame : c.sequence = chunk.sequence := congrArg Prod.snd hpath
      rw [← hsame]
      exact hpos c hc
    obtain ⟨hnum, hrows, hgrow⟩ := h.save_store hone hnext
    have hconfirm := (w.store.save_cases chunk next).2
    have hforms : ∀ r ∈ (w.store.save chunk next).1.logChunks.rows, w.Genuine wide redacting r := by
      intro r hr
      rcases hrows r hr with hr | rfl
      · exact h.forms r hr
      · exact hgen
    have hcalls : ∀ call ∈ w.calls.eraseIdx i, w.Genuine wide redacting call.chunk
          ∧ ∀ m, call.next = some m → m ≤ ((w.store.save chunk next).1.stream call.chunk.key).length
              + 1 := by
      intro call hmem
      obtain ⟨hg, hm⟩ := h.calls call (List.mem_of_mem_eraseIdx hmem)
      refine ⟨hg, fun m hm' => ?_⟩
      have := hm m hm'
      have := hgrow call.chunk.key
      omega
    have hacks : ∀ a ∈ w.acks, a.nextSequence
        ≤ ((w.store.save chunk next).1.stream a.key).length + 1 := by
      intro a ha
      have := h.acks a ha
      have := hgrow a.key
      omega
    generalize w.store.save chunk next = out at *
    obtain ⟨store, answer⟩ := out
    cases answer with
    | error e => exact ⟨⟨hnum, hforms, hcalls, hacks⟩, hgrow⟩
    | ok confirmed =>
      refine ⟨⟨hnum, hforms, hcalls, fun a ha => ?_⟩, hgrow⟩
      rcases List.mem_append.mp ha with ha | ha
      · exact hacks a ha
      obtain rfl := List.mem_singleton.mp ha
      -- the chunk is in the store, so its number is below the count
      obtain ⟨hmax, hle, r, hr, hpath, -⟩ := hconfirm confirmed rfl
      have hrkey : r.key = chunk.key := congrArg Prod.fst hpath
      have hrseq : r.sequence = chunk.sequence := congrArg Prod.snd hpath
      have hmem : r.sequence ∈ (store.stream chunk.key).map LogChunk.sequence := List.mem_map.mpr
          ⟨r, List.mem_filter.mpr ⟨hr, by simp [hrkey]⟩, rfl⟩
      have hnum' : (store.stream chunk.key).map LogChunk.sequence
        = List.range' 1 (store.stream chunk.key).length := hnum chunk.key
      rw [hnum', List.mem_range'_1] at hmem
      have hle' : w.stored chunk.key ≤ (store.stream chunk.key).length := hgrow chunk.key
      show confirmed ≤ (store.stream chunk.key).length + 1
      omega
  · exact ⟨h, fun key => le_rfl⟩

-- ======== the whole way

/-- The invariant of the whole way. -/
structure Inv (w : LogWorld) (wide : Bytes → Bytes) (redacting : Bool) : Prop where
  spool : SpoolInv w.client.spool.disk w.written
  underway : ∀ c, c ∈ w.client.queue ∨ w.client.waiting = some c ∨ c ∈ w.sent → c ∈ w.written
  values : ∀ runID token values, w.values.get? (runID, token) = some values →
    ⟨runID, token, values⟩ ∈ w.bound
  server : w.ServerInv wide redacting
  kept : ∀ c ∈ w.written, c ∈ w.client.spool.disk.chunks.rows ∨ c.sequence ≤ w.stored c.key

theorem Inv.fresh (s : Spool) : (fresh s).Inv wide redacting := by
  constructor
  · exact ⟨fun _ => rfl, fun _ => rfl, fun _ hc => absurd hc List.not_mem_nil⟩
  · rintro c (hc | hc | hc) <;> cases hc
  · intro runID token values h
    cases h
  · exact ⟨fun _ => rfl, fun _ hr => absurd hr List.not_mem_nil,
      fun _ hr => absurd hr List.not_mem_nil, fun _ ha => absurd ha List.not_mem_nil⟩
  · intro c hc
    cases hc

theorem Inv.of_client (h : w.Inv wide redacting) (client : LogClient)
    (hspool : SpoolInv client.spool.disk w.written)
    (hunderway : ∀ c, c ∈ client.queue ∨ client.waiting = some c → c ∈ w.written)
    (hkept : ∀ c ∈ w.client.spool.disk.chunks.rows,
      c ∈ client.spool.disk.chunks.rows ∨ c.sequence ≤ w.stored c.key) :
    { w with client }.Inv wide redacting where
  spool := hspool
  underway := by
    rintro c (hc | hc | hc)
    · exact hunderway c (Or.inl hc)
    · exact hunderway c (Or.inr hc)
    · exact h.underway c (Or.inr (Or.inr hc))
  values := h.values
  server := h.server.of_client rfl rfl rfl (List.Subset.refl _) (List.Subset.refl _)
  kept := by
    intro c hc
    rcases h.kept c hc with hrow | hstored
    · exact hkept c hrow
    · exact Or.inr hstored

theorem write_client (c : LogClient) (key : Key) (content : Bytes) (now : Nat → Int) :
    (c.write key content now none).1.queue = c.queue
      ∧ (c.write key content now none).1.waiting = c.waiting
      ∧ (c.write key content now none).1.spool.disk
        = (c.spool.append key content now none).1.disk := by
  unfold LogClient.write
  split
  · next hnil =>
    refine ⟨rfl, rfl, ?_⟩
    -- an empty text makes no chunk, and nothing is written
    subst hnil
    have hnone : c.spool.appended key [] now none = [] := by
      unfold Spool.appended
      simp only
      split <;> rfl
    show _ = (c.spool.performAll _).disk
    rw [hnone]
    rfl
  · split <;> next happ => exact ⟨rfl, rfl, by rw [happ]⟩

section Inv

variable (h : w.Inv wide redacting)

include h

theorem Inv.write (key : Key) (content : Bytes) (now : Nat → Int) :
    (w.step wide redacting (.write key content now)).Inv wide redacting := by
  obtain ⟨hqueue, hwaiting, hdisk⟩ := write_client w.client key content now
  cases hok : (w.client.spool.append key content now none).2 with
  | error e =>
    have hsame : (w.client.spool.append key content now none).1.disk = w.client.spool.disk := by
      have hnone : w.client.spool.appended key content now none = [] := by
        unfold Spool.append at hok
        unfold Spool.appended
        simp only at hok ⊢
        split
        · rfl
        · next hrefusal => simp [hrefusal] at hok
      show (w.client.spool.performAll _).disk = _
      rw [hnone]
      rfl
    have hstep : w.step wide redacting (.write key content now)
        = { w with client := (w.client.write key content now none).1 } := by
      show LogWorld.mk .. = LogWorld.mk ..
      generalize happ : w.client.spool.append key content now none = out at hok
      obtain ⟨spool, answer⟩ := out
      cases hok
      simp
    rw [hstep]
    refine h.of_client _ ?_ ?_ ?_
    · rw [hdisk, hsame]
      exact h.spool
    · rw [hqueue, hwaiting]
      exact fun c hc => h.underway c (hc.imp_right Or.inl)
    · intro c hc
      rw [hdisk, hsame]
      exact Or.inl hc
  | ok result =>
    have hwritten : (w.step wide redacting
        (.write key content now)).written = w.written ++ result := by
      generalize happ : w.client.spool.append key content now none = out at hok
      obtain ⟨spool, answer⟩ := out
      cases hok
      show w.written ++ _ = _
      rw [happ]
    have hsub : w.written ⊆ w.written ++ result := List.subset_append_left _ _
    have hrows := (Spool.append_disk hok).1
    constructor
    · rw [hwritten]
      show SpoolInv (w.client.write key content now none).1.spool.disk _
      rw [hdisk]
      exact h.spool.append hok
    · rw [hwritten]
      intro c hc
      refine hsub (h.underway c ?_)
      rw [← hqueue, ← hwaiting]
      exact hc
    · exact h.values
    · exact h.server.of_client rfl rfl rfl (hwritten ▸ hsub) (List.Subset.refl _)
    · rw [hwritten]
      intro c hc
      show c ∈ (w.client.write key content now none).1.spool.disk.chunks.rows
        ∨ c.sequence ≤ w.stored c.key
      rw [hdisk, hrows]
      rcases List.mem_append.mp hc with hc | hc
      · exact (h.kept c hc).imp_left (List.mem_append_left _)
      · exact Or.inl (List.mem_append_right _ hc)

/-- What the control plane confirmed may go from the buffer. -/
theorem Inv.receive {a : LogAcknowledgement} (ha : a ∈ w.acks) (cut : Option Nat) :
    { w with client := w.client.receive a cut }.Inv wide redacting := by
  unfold LogClient.receive
  split
  · exact h
  next chunk hwaiting =>
  split
  · exact h.of_client _ h.spool (by rintro c (hc | hc) <;> cases hc) fun c hc => Or.inl hc
  next hmatch =>
  obtain ⟨-, hkey⟩ := not_or.mp hmatch
  have hkey : a.key = chunk.key := by simpa using hkey
  have hspool := h.spool.acknowledge chunk.key a.nextSequence cut
  have hkept : ∀ c ∈ w.client.spool.disk.chunks.rows,
      c ∈ (w.client.spool.acknowledge chunk.key a.nextSequence cut).1.disk.chunks.rows
        ∨ c.sequence ≤ w.stored c.key := by
    intro c hc
    obtain ⟨gone, hops, hgone, -⟩ := w.client.spool.acknowledged_spec chunk.key a.nextSequence cut
    show c ∈ (w.client.spool.performAll _).disk.chunks.rows ∨ _
    rw [Spool.performAll_disk, hops, (w.client.spool.disk.removeAll gone).1]
    by_cases hstays : ∀ d ∈ gone, c.path ≠ d.path
    · exact Or.inl ⟨hc, hstays⟩
    obtain ⟨d, hd⟩ := not_forall.mp hstays
    obtain ⟨hd, heq⟩ := Classical.not_imp.mp hd
    have hpath : c.path = d.path := not_not.mp heq
    obtain ⟨hpend, hlt⟩ := hgone d hd
    have hckey : c.key = d.key := congrArg Prod.fst hpath
    have hcseq : c.sequence = d.sequence := congrArg Prod.snd hpath
    have hdkey := (Disk.mem_pending.mp hpend).2
    have hle := h.server.acks a ha
    rw [hkey, ← hdkey, ← hckey] at hle
    exact Or.inr (by omega)
  split
  · next spool hack =>
    rw [hack] at hspool hkept
    refine h.of_client _ hspool ?_ hkept
    rintro c (hc | hc)
    · exact h.underway c (Or.inl hc)
    · cases hc
  · next spool e hack =>
    rw [hack] at hspool hkept
    exact h.of_client _ hspool (by rintro c (hc | hc) <;> cases hc) hkept

theorem Inv.of_server (hclient : w'.client = w.client) (hsent : w'.sent = w.sent)
    (hwritten : w'.written = w.written) (hvalues : w'.values = w.values)
    (hbound : w'.bound = w.bound) (hserver : w'.ServerInv wide redacting)
    (hgrow : ∀ key, w.stored key ≤ w'.stored key) : w'.Inv wide redacting where
  spool := by rw [hclient, hwritten]; exact h.spool
  underway := by rw [hclient, hsent, hwritten]; exact h.underway
  values := by rw [hvalues, hbound]; exact h.values
  server := hserver
  kept := by
    rw [hclient, hwritten]
    intro c hc
    exact (h.kept c hc).imp_right fun hle => hle.trans (hgrow c.key)

theorem Inv.arrive (i : Nat) (now : Int) (ordered : List Bytes) :
    (w.arrive wide redacting i now ordered).Inv wide redacting := by
  have hserver := h.server.arrive
    (fun c hc => h.underway c (Or.inr (Or.inr hc))) h.values i now ordered
  have hframe : ∃ calls, w.arrive wide redacting i now ordered = { w with calls } := by
    unfold LogWorld.arrive
    split
    · exact ⟨_, rfl⟩
    split
    · exact ⟨_, rfl⟩
    split <;> exact ⟨_, rfl⟩
  obtain ⟨calls, heq⟩ := hframe
  rw [heq] at hserver ⊢
  exact h.of_server rfl rfl rfl rfl rfl hserver fun _ => le_rfl

theorem Inv.read (i : Nat) : (w.read i).Inv wide redacting := by
  have hserver := h.server.read i
  have hframe : ∃ calls, w.read i = { w with calls } := by
    unfold LogWorld.read
    split <;> exact ⟨_, rfl⟩
  obtain ⟨calls, heq⟩ := hframe
  rw [heq] at hserver ⊢
  exact h.of_server rfl rfl rfl rfl rfl hserver fun _ => le_rfl

theorem Inv.save (i : Nat) : (w.save i).Inv wide redacting := by
  obtain ⟨hserver, hgrow⟩ := h.server.save (fun c hc => (h.spool.sequence_mem hc).1) i
  have hframe : ∃ store calls acks, w.save i = { w with store, calls, acks } := by
    unfold LogWorld.save
    split
    · split <;> exact ⟨_, _, _, rfl⟩
    · exact ⟨_, _, _, rfl⟩
  obtain ⟨store, calls, acks, heq⟩ := hframe
  rw [heq] at hserver hgrow ⊢
  exact h.of_server rfl rfl rfl rfl rfl hserver hgrow

theorem Inv.send : (w.step wide redacting .send).Inv wide redacting := by
  unfold LogWorld.step LogClient.sendLogChunk
  dsimp only
  split
  · next chunk heq =>
    split at heq
    · next rest hwaiting hqueue =>
      cases heq
      have hmem : chunk ∈ w.written := h.underway chunk
          (Or.inl (by rw [hqueue]; exact List.mem_cons_self))
      have hnext := h.of_client
        { w.client with queue := rest, waiting := some chunk } h.spool (by
          rintro d (hd | hd)
          · exact h.underway d (Or.inl (by rw [hqueue]; exact List.mem_cons_of_mem _ hd))
          · cases hd
            exact hmem)
        fun d hd => Or.inl hd
      refine ⟨hnext.spool, ?_, hnext.values, ?_, hnext.kept⟩
      · rintro d (hd | hd | hd)
        · exact hnext.underway d (Or.inl hd)
        · exact hnext.underway d (Or.inr (Or.inl hd))
        · rcases List.mem_append.mp hd with hd | hd
          · exact h.underway d (Or.inr (Or.inr hd))
          · exact List.mem_singleton.mp hd ▸ hmem
      · exact h.server.of_client rfl rfl rfl (List.Subset.refl _) (List.Subset.refl _)
    · cases heq
  · next heq =>
    split at heq
    · cases heq
    · cases heq
      exact h

theorem Inv.step (op : LogOp) : (w.step wide redacting op).Inv wide redacting := by
  cases op with
  | write key content now => exact h.write key content now
  | flush =>
    show ({ w with client := w.client.flush } : LogWorld).Inv wide redacting
    unfold LogClient.flush
    split
    · refine h.of_client _ h.spool ?_ fun c hc => Or.inl hc
      rintro c (hc | hc)
      · exact h.spool.rows c ((List.mem_insertionSort _).mp hc)
      · exact h.underway c (Or.inr (Or.inl hc))
    · exact h
  | send => exact h.send
  | arrive i now ordered => exact h.arrive i now ordered
  | read i => exact h.read i
  | save i => exact h.save i
  | acknowledge i cut =>
    unfold LogWorld.step
    dsimp only
    split
    · exact h
    · next a ha => exact h.receive (List.mem_of_getElem? ha) cut
  | disconnect | restart =>
    exact h.of_client _ h.spool (by rintro c (hc | hc) <;> cases hc) fun c hc => Or.inl hc
  | assign runID executionToken =>
    exact h.of_server rfl rfl rfl rfl rfl (h.server.of_client rfl rfl rfl (List.Subset.refl _)
        (List.Subset.refl _)) fun _ => le_rfl
  | bind runID executionToken values =>
    refine ⟨h.spool, h.underway, fun run token values' hget => ?_,
      h.server.of_client rfl rfl rfl (List.Subset.refl _) (List.subset_append_left _ _), h.kept⟩
    have hget' : (w.values.set (runID, executionToken) values).get?
      (run, token) = some values' := hget
    rw [Hash.get?_set] at hget'
    split at hget'
    · next hkey =>
      obtain ⟨rfl, rfl⟩ := Prod.ext_iff.mp hkey
      cases hget'
      exact List.mem_append_right _ List.mem_cons_self
    · exact List.mem_append_left _ (h.values run token values' hget')

end Inv

theorem Inv.run (s : Spool) (ops : List LogOp) : (run wide redacting s ops).Inv wide redacting :=
  Transition.run_invariant (I := fun w : LogWorld => w.Inv wide redacting)
    (fun _ op h => h.step op) (Inv.fresh s) ops

variable (h : w.Inv wide redacting)

include h

/-- A stored chunk is the redacted form of the chunk with its number. -/
theorem Inv.form {key : Key} {c r : LogChunk} (hc : c ∈ w.history key) (hr : r ∈ w.store.stream key)
    (hseq : c.sequence = r.sequence) : w.Redacted wide redacting c r.content := by
  obtain ⟨hrow, hrkey⟩ := List.mem_filter.mp hr
  obtain ⟨d, hd, hpath, hform⟩ := h.server.forms r hrow
  have hdkey : d.key = key := (congrArg Prod.fst hpath).trans (of_decide_eq_true hrkey)
  have hdseq : d.sequence = r.sequence := congrArg Prod.snd hpath
  have hnodup : ((w.history key).map LogChunk.sequence).Nodup := by
    unfold history
    rw [h.spool.numbers key]
    exact List.nodup_range'
  have hsame : c = d := List.inj_on_of_nodup_map hnodup hc
    (List.mem_filter.mpr ⟨hd, decide_eq_true hdkey⟩) (hseq.trans hdseq.symm)
  rw [hsame]
  exact hform

theorem Inv.stored_le (key : Key) : w.stored key ≤ (w.history key).length := by
  by_cases hzero : w.stored key = 0
  · omega
  obtain ⟨r, hr, hrpath⟩ := h.server.exists_row (show 1 ≤ w.stored key by omega) le_rfl
  obtain ⟨c, hc, hpath, -⟩ := h.server.forms r hr
  have hckey : c.key = key := congrArg Prod.fst (hpath.trans hrpath)
  have hcseq : c.sequence = w.stored key := congrArg Prod.snd (hpath.trans hrpath)
  have hle := (h.spool.sequence_mem hc).2
  rw [hckey, hcseq] at hle
  exact hle

/-- The stored chunks of a stream are the redacted forms of the first
ones the agent wrote. -/
theorem Inv.first_chunks (key : Key) :
    List.Forall₂ (fun c r => c.sequence = r.sequence ∧ w.Redacted wide redacting c r.content)
      ((w.history key).take (w.stored key)) (w.store.stream key) := by
  have hkeys : ((w.history key).take (w.stored key)).map LogChunk.sequence
      = (w.store.stream key).map LogChunk.sequence := by
    have hle := h.stored_le key
    have hnum : (w.history key).map LogChunk.sequence
        = List.range' 1 (w.history key).length := h.spool.numbers key
    rw [List.map_take, hnum, List.take_range'_of_length_ge hle]
    exact (h.server.numbered key).symm
  have hform : ∀ c ∈ (w.history key).take (w.stored key),
      ∀ r ∈ w.store.stream key, c.sequence = r.sequence → w.Redacted wide redacting c r.content :=
    fun c hc r hr => h.form (List.mem_of_mem_take hc) hr
  generalize (w.history key).take (w.stored key) = cs at hkeys hform
  generalize w.store.stream key = rs at hkeys hform
  induction cs generalizing rs with
  | nil =>
    obtain rfl := List.map_eq_nil_iff.mp hkeys.symm
    exact .nil
  | cons c cs ih =>
    obtain ⟨r, rs', rfl, hseq, hrest⟩ := List.map_eq_cons_iff.mp hkeys.symm
    refine .cons ⟨hseq.symm, hform c List.mem_cons_self r
      List.mem_cons_self hseq.symm⟩ (ih rs' hrest.symm ?_)
    exact fun c' hc r' hr => hform c' (List.mem_cons_of_mem c hc) r' (List.mem_cons_of_mem r hr)

end LogWorld

/-- Over any run, the control plane has the first chunks the agent wrote
to a stream, in order and redacted, numbered from 1; and a chunk the
buffer no longer has is among them. -/
theorem log_transport_faithful (wide : Bytes → Bytes) (redacting : Bool)
    (s : Spool) (ops : List LogOp) (key : Key) :
    let w := LogWorld.run wide redacting s ops
    (w.store.stream key).map LogChunk.sequence
        = List.range' 1 (w.store.stream key).length
      ∧ List.Forall₂ (fun c r => c.sequence = r.sequence
          ∧ w.Redacted wide redacting c r.content)
        ((w.history key).take (w.store.stream key).length)
        (w.store.stream key)
      ∧ ∀ c ∈ w.history key, c ∉ w.client.spool.disk.pending key →
        ∃ r ∈ w.store.stream key, r.sequence = c.sequence
          ∧ w.Redacted wide redacting c r.content := by
  intro w
  have h : w.Inv wide redacting := LogWorld.Inv.run s ops
  refine ⟨h.server.numbered key, h.first_chunks key, fun c hc hgone => ?_⟩
  obtain ⟨hwritten, hkey⟩ := List.mem_filter.mp hc
  have hkey : c.key = key := of_decide_eq_true hkey
  rcases h.kept c hwritten with hrow | hle
  · exact absurd (Disk.mem_pending.mpr ⟨hrow, hkey⟩) hgone
  rw [hkey] at hle
  obtain ⟨r, hr, hpath⟩ := h.server.exists_row
    (h.spool.sequence_mem hwritten).1 hle
  have hrkey : r.key = key := congrArg Prod.fst hpath
  have hrseq : r.sequence = c.sequence := congrArg Prod.snd hpath
  have hmem : r ∈ w.store.stream key :=
    List.mem_filter.mpr ⟨hr, decide_eq_true hrkey⟩
  exact ⟨r, hmem, hrseq, h.form hc hmem hrseq.symm⟩

/-- One chunk on its way: sent twice, stored once, confirmed, and gone
from the buffer. -/
example :
    let w := LogWorld.run id false smallSpool
      [.assign "run" "token", .write smallKey [0x61] (fun _ => 0), .flush,
        .send, .arrive 0 0 [], .arrive 0 0 [], .read 0, .read 1, .save 0,
        .save 0, .acknowledge 0 none]
    (w.store.stream smallKey).map LogChunk.content = [[0x61]]
      ∧ w.client.spool.disk.pending smallKey = [] := by
  decide

end Yunling.Logstream

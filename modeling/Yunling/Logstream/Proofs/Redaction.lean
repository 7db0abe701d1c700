/-
What the stored log of a stream says about the secrets of its run.

Within one chunk masking is complete: a value that is masked is gone
from the chunk (`not_infix_mask`). But every chunk is masked by itself. A
secret that the agent happened to cut is in no chunk, and is back in the
text as soon as the chunks are read one after the other
(`cut_secret_revealed`), unless an occurrence that masking takes in one of
the chunks has a letter of it. Which occurrences those are is read off the
chunk as it came (`Delivery.taken`).
-/
import Yunling.Logstream.Proofs.Store
import Yunling.Secret.Proofs.Mask

namespace Yunling.Logstream

open Relational Utf8 Secret Replace

-- ======== deliveries

/-- A chunk as the service gets it, the order in which its masking goes
through the values, and the time. -/
structure Delivery where
  chunk : LogChunk
  ordered : List Bytes
  now : Int

/-- The content that is stored for a delivery. -/
def Delivery.masked (wide : Bytes → Bytes) (d : Delivery) : Bytes :=
  Redactor.mask wide d.ordered d.chunk.content

/-- Deliveries one after the other, until one is refused. -/
def acceptAll (wide : Bytes → Bytes) (values : List Bytes) :
    ChunkStore → List Delivery → Except AcceptError ChunkStore
  | st, [] => .ok st
  | st, d :: ds =>
    match accept wide st d.chunk d.now (.on values d.ordered) with
    | (_, .error e) => .error e
    | (st', .ok _) => acceptAll wide values st' ds

variable {wide : Bytes → Bytes} {values : List Bytes} {ds : List Delivery} {st st' : ChunkStore}

/-- The next chunk of a stream is stored with its content masked. -/
theorem accept_next {d : Delivery} {key : Key} {n m : Nat}
    (hnum : st.Numbered key n) (hpath : d.chunk.path = (key, n + 1))
    (h : accept wide st d.chunk d.now (.on values d.ordered) = (st', .ok m)) :
    st'.Numbered key (n + 1) ∧ (st'.stream key).map LogChunk.content
        = (st.stream key).map LogChunk.content ++ [d.masked wide] := by
  unfold accept at h
  split at h
  · cases h
  next c hprep =>
  obtain ⟨hc, hcontent⟩ := prepare_ok hprep
  have hkey : c.key = key := congrArg Prod.fst (hc.trans hpath)
  have hseq : c.sequence = n + 1 := congrArg Prod.snd (hc.trans hpath)
  rw [hkey, hnum.nextSequence] at h
  obtain ⟨hcases, hok⟩ := st.save_cases c (n + 1)
  rw [h] at hcases hok
  have hadded : st'.logChunks.rows = st.logChunks.rows ++ [c] := by
    rcases hcases with heq | ⟨-, hrows, -⟩
    · -- the chunk would have been stored before
      obtain ⟨-, -, r, hr, hrpath, -⟩ := hok m rfl
      have hrkey : r.key = key := congrArg Prod.fst (hrpath.trans (hc.trans hpath))
      have hrseq : r.sequence = n + 1 := (congrArg Prod.snd hrpath).trans hseq
      rw [show st' = st from heq] at hr
      have hmem : r.sequence ∈ List.range' 1 n := by
        rw [← show (st.stream key).map LogChunk.sequence = _ from hnum]
        exact List.mem_map.mpr ⟨r, List.mem_filter.mpr ⟨hr, by simp [hrkey]⟩, rfl⟩
      rw [List.mem_range'_1] at hmem
      omega
    · exact hrows
  have hstream : st'.stream key = st.stream key ++ [c] := by
    unfold ChunkStore.stream
    rw [hadded]
    simp [hkey]
  unfold ChunkStore.Numbered
  rw [hstream, List.map_append, List.map_append]
  refine ⟨?_, ?_⟩
  · rw [show (st.stream key).map LogChunk.sequence = _ from hnum, List.range'_concat]
    simp [hseq, Nat.add_comm]
  · have hmasked : c.content = d.masked wide := Option.some.inj hcontent.symm
    rw [List.map_singleton, hmasked]

theorem acceptAll_text {key : Key} {n : Nat} (hnum : st.Numbered key n)
    (hds : ds.map (·.chunk.path) = (List.range' (n + 1) ds.length).map (Prod.mk key))
    (h : acceptAll wide values st ds = .ok st') : (∃ m, st'.Numbered key m)
      ∧ (st'.stream key).map LogChunk.content = (st.stream key).map LogChunk.content
          ++ ds.map (Delivery.masked wide) := by
  induction ds generalizing st n with
  | nil =>
    cases h
    exact ⟨⟨n, hnum⟩, by simp⟩
  | cons d ds ih =>
    rw [acceptAll] at h
    split at h
    · cases h
    next st₁ m haccept =>
    simp only [List.map_cons, List.length_cons, List.range'_succ, List.cons.injEq] at hds
    obtain ⟨hnum₁, hcontent₁⟩ := accept_next hnum hds.1 haccept
    obtain ⟨hnum', hcontent⟩ := ih hnum₁ hds.2 h
    refine ⟨hnum', ?_⟩
    rw [hcontent, hcontent₁, List.map_cons, List.append_assoc, List.singleton_append]

-- ======== secrets

/-- The words of its values, in the order in which they are masked. -/
def Delivery.words (wide : Bytes → Bytes) (d : Delivery) : List Bytes :=
  d.ordered.flatMap (Secret.words wide)

/-- The occurrences of these words in the chunk that are masked. -/
def Delivery.taken (wide : Bytes → Bytes) (d : Delivery) : List (Nat × Nat) :=
  Replace.taken (d.words wide) d.chunk.content

/-- A secret that lies across chunks, none of its letters in an occurrence
that is masked: it is the end of one chunk, whole chunks, and the
beginning of another. -/
def Torn (wide : Bytes → Bytes) (v : Bytes) (ds : List Delivery) : Prop :=
  ∃ before c mids d after s p, ds = before ++ c :: (mids ++ d :: after)
    ∧ v = s ++ ((mids.map (·.chunk.content)).flatten ++ p)
    ∧ (s ≠ [] ∧ s <:+ c.chunk.content
      ∧ Free (c.taken wide) (c.chunk.content.length - s.length) s.length)
    ∧ (∀ m ∈ mids, Free (m.taken wide) 0 m.chunk.content.length)
    ∧ p ≠ [] ∧ p <+: d.chunk.content ∧ Free (d.taken wide) 0 p.length

theorem Delivery.prefix_iff {d : Delivery} {v : Bytes} (hd : ∀ w ∈ d.words wide, 0x2A ∉ w)
    (hv : 0x2A ∉ v) :
    v <+: d.masked wide ↔ v <+: d.chunk.content ∧ Free (d.taken wide) 0 v.length := by
  rw [Delivery.masked, mask_eq]
  exact prefix_replaced_iff mask_ne_nil (fun w hw => avoids_mask (hd w hw)) (avoids_mask hv)

theorem Delivery.suffix_iff {d : Delivery} {v : Bytes} (hd : ∀ w ∈ d.words wide, 0x2A ∉ w)
    (hv : 0x2A ∉ v) : v <:+ d.masked wide ↔ v <:+ d.chunk.content
      ∧ Free (d.taken wide) (d.chunk.content.length - v.length) v.length := by
  rw [Delivery.masked, mask_eq]
  exact suffix_replaced_iff mask_ne_nil (fun w hw => avoids_mask (hd w hw)) (avoids_mask hv)

theorem Delivery.whole_iff {d : Delivery} (hd : ∀ w ∈ d.words wide, 0x2A ∉ w)
    (hv : 0x2A ∉ d.chunk.content) :
    d.chunk.content = d.masked wide ↔ Free (d.taken wide) 0 d.chunk.content.length := by
  rw [Delivery.masked, mask_eq]
  exact eq_replaced_iff mask_ne_nil (fun w hw => avoids_mask (hd w hw)) (avoids_mask hv)

theorem Torn.revealed {v : Bytes} (hds : ∀ d ∈ ds, ∀ w ∈ d.words wide, 0x2A ∉ w)
    (hstar : 0x2A ∉ v) (h : Torn wide v ds) : v <:+: (ds.map (Delivery.masked wide)).flatten := by
  obtain ⟨before, c, mids, d, after, s, p, rfl, rfl, ⟨-, hs⟩, hmids, -, hp⟩ := h
  simp only [List.mem_append, List.mem_flatten, List.mem_map, not_or, not_exists, not_and] at hstar
  obtain ⟨hstar₁, hstar₂, hstar₃⟩ := hstar
  obtain ⟨a, ha⟩ := (Delivery.suffix_iff (hds c (by simp)) hstar₁).mpr hs
  obtain ⟨b, hb⟩ := (Delivery.prefix_iff (hds d (by simp)) hstar₃).mpr hp
  have hwhole : mids.map (Delivery.masked wide) = mids.map (·.chunk.content) :=
    List.map_congr_left fun m hm => ((Delivery.whole_iff (hds m (by simp [hm]))
      (hstar₂ _ ⟨m, hm, rfl⟩)).mpr (hmids m hm)).symm
  refine ⟨(before.map (Delivery.masked wide)).flatten ++ a,
    b ++ (after.map (Delivery.masked wide)).flatten, ?_⟩
  simp only [List.map_append, List.map_cons, List.flatten_append,
    List.flatten_cons, hwhole, ← ha, ← hb, List.append_assoc]

/-- A secret in the masked text lies across chunks. -/
theorem torn_of_revealed {v : Bytes} (hds : ∀ d ∈ ds, ∀ w ∈ d.words wide, 0x2A ∉ w)
    (hstar : 0x2A ∉ v) (hne : v ≠ []) (hmem : ∀ d ∈ ds, v ∈ d.words wide)
    (h : v <:+: (ds.map (Delivery.masked wide)).flatten) : Torn wide v ds := by
  have hnone : ∀ x ∈ ds.map (Delivery.masked wide), ¬ v <:+: x := by
    intro x hx
    obtain ⟨d, hd, rfl⟩ := List.mem_map.mp hx
    rw [Delivery.masked, mask_eq]
    exact not_infix_masked hstar (hmem d hd) hne
  obtain ⟨before, x, mids, y, after, s, p, hall, rfl, hs, hx, hp, hy⟩ := infix_flatten hne h hnone
  obtain ⟨ds₁, ds', rfl, -, hfrom⟩ := List.map_eq_append_iff.mp hall
  obtain ⟨c, ds'', rfl, rfl, hbetween⟩ := List.map_eq_cons_iff.mp hfrom
  obtain ⟨ms, ds₃, rfl, rfl, hto⟩ := List.map_eq_append_iff.mp hbetween
  obtain ⟨d, ds₄, rfl, rfl, -⟩ := List.map_eq_cons_iff.mp hto
  simp only [List.mem_append, List.mem_flatten, List.mem_map, not_or, not_exists, not_and] at hstar
  obtain ⟨hstar₁, hstar₂, hstar₃⟩ := hstar
  -- a chunk whose masked content has no asterisk is left as it is
  have hwhole : ∀ m ∈ ms, m.chunk.content = m.masked wide := fun m hm =>
    eq_of_mask wide (hstar₂ _ ⟨m, hm, rfl⟩) rfl
  refine ⟨ds₁, c, ms, d, ds₄, s, p, rfl, ?_,
    ⟨hs, (Delivery.suffix_iff (hds c (by simp)) hstar₁).mp hx⟩, fun m hm => ?_, hp,
    (Delivery.prefix_iff (hds d (by simp)) hstar₃).mp hy⟩
  · rw [List.map_congr_left hwhole]
  · refine (Delivery.whole_iff (hds m (by simp [hm])) ?_).mp (hwhole m hm)
    rw [hwhole m hm]
    exact hstar₂ _ ⟨m, hm, rfl⟩

/-- The stored log keeps a set of secrets exactly when none of them is
empty or lies across chunks. -/
theorem secrets_kept_iff (wide : Bytes → Bytes) (hwide : ∀ s, 0x2A ∉ s → 0x2A ∉ wide s)
    (values : List Bytes) (hstar : ∀ v ∈ values, 0x2A ∉ v) (st st' : ChunkStore) (key : Key)
    (hfresh : ∀ r ∈ st.logChunks.rows, r.key ≠ key) (ds : List Delivery)
    (hord : ∀ d ∈ ds, Ordering values d.ordered)
    (hds : ds.map (·.chunk.path) = (List.range' 1 ds.length).map (Prod.mk key))
    (hstored : acceptAll wide values st ds = .ok st') :
    (∀ v ∈ values, ¬ v <:+: st'.text key) ↔ ∀ v ∈ values, v ≠ [] ∧ ¬ Torn wide v ds := by
  have hempty : st.stream key = [] := by
    unfold ChunkStore.stream
    rw [List.filter_eq_nil_iff]
    intro r hr
    simpa using hfresh r hr
  have hnum : st.Numbered key 0 := by
    unfold ChunkStore.Numbered
    rw [hempty]
    rfl
  obtain ⟨⟨m, hnum'⟩, hcontent⟩ := acceptAll_text hnum hds hstored
  have htext : st'.text key = (ds.map (Delivery.masked wide)).flatten := by
    rw [hnum'.text, List.flatMap_def, hcontent, hempty]
    simp
  have hwords : ∀ d ∈ ds, ∀ w ∈ d.words wide, 0x2A ∉ w :=
    fun d hd => words_star hwide (hord d hd) hstar
  rw [htext]
  refine forall₂_congr fun v hv => ?_
  constructor
  · intro hkept
    refine ⟨?_, fun htorn => hkept (htorn.revealed hwords (hstar v hv))⟩
    rintro rfl
    exact hkept List.nil_infix
  · rintro ⟨hne, htorn⟩ hrevealed
    have hform : v ∈ variants values :=
      List.mem_flatMap.mpr ⟨v, List.mem_filter.mpr ⟨hv, by simpa using hne⟩, List.mem_cons_self⟩
    have hmask : v ≠ mask := by
      rintro rfl
      exact hstar _ hv (by decide)
    exact htorn (torn_of_revealed hwords (hstar v hv) hne (fun d hd => List.mem_flatMap.mpr
      ⟨v, (hord d hd).every v hform hne hmask, List.mem_cons_self⟩) hrevealed)

-- ======== an instance

/-- A chunk of one stream, masked for the secret `pw`. -/
def pwDelivery (sequence : Nat) (content : Bytes) : Delivery where
  chunk := ⟨"run", "token", sequence, .stdout, content, 0⟩
  ordered := someOrder [[0x70, 0x77]]
  now := 0

/-- A store that knows the run. -/
def pwStore : ChunkStore where
  executionTokens := Hash.set .empty "run" "token"
  logChunks := .empty

theorem secrets_kept_pw : ([0x70, 0x77] : Bytes) ≠ [] ∧ ¬ Torn id [0x70, 0x77]
      [pwDelivery 1 [0x70, 0x77, 0x70], pwDelivery 2 [0x70]] :=
  (secrets_kept_iff id (fun _ h => h) [[0x70, 0x77]] (by decide) pwStore _
    ⟨"run", "token", .stdout⟩ (by decide) [pwDelivery 1 [0x70, 0x77, 0x70], pwDelivery 2 [0x70]] (by
      intro d hd
      simp only [List.mem_cons, List.not_mem_nil, or_false] at hd
      rcases hd with rfl | rfl <;> exact someOrder_ordering _)
    rfl rfl).mp (by decide) [0x70, 0x77] (by decide)

/-- The secret `pw`, cut after its first letter. -/
theorem cut_secret_revealed : Ordering [[0x70, 0x77]] (someOrder [[0x70, 0x77]])
    ∧ ∃ st', acceptAll id [[0x70, 0x77]] pwStore
        [pwDelivery 1 [0x70], pwDelivery 2 [0x77]] = .ok st'
      ∧ [0x70, 0x77] <:+: st'.text ⟨"run", "token", .stdout⟩ :=
  ⟨someOrder_ordering _, _, rfl, by decide⟩

end Yunling.Logstream

/-
The search of runs (`runFilterQuery` of `internal/task/run_service.go`).

A query is looked for as it stands: its wildcards are escaped before it
becomes a pattern of `ILIKE`. The statement grows a clause and an argument
for each filter that is set, and each clause names its argument by number.

# The database

`ILIKE` folds the case of text and pattern, character by character, and
then matches as `LIKE` does with the backslash as its escape. How case is
folded is up to the collation, which has no case for the characters a
pattern gives a meaning.
-/
import Mathlib.Data.List.Infix

namespace Yunling.Task

-- ======== patterns

/-- The characters a pattern gives a meaning. -/
def special : List Char := ['\\', '%', '_']

/-- `strings.NewReplacer` of `runFilterQuery`. -/
def escape (query : List Char) : List Char :=
  query.flatMap fun c => if c ∈ special then ['\\', c] else [c]

/-- The pattern of a query. -/
def searchPattern (query : String) : String :=
  .ofList ('%' :: escape query.toList ++ ['%'])

/-- How the database folds case. -/
structure Collation where
  lower : Char → Char
  keeps : ∀ c ∈ special, lower c = c
  makes : ∀ c, lower c ∈ special → c ∈ special

/-- An element of a pattern. -/
inductive Wildcard where
  | many | one
  | exactly (c : Char)

namespace Wildcard

/-- A pattern as `LIKE` reads it; one that ends in the escape is an error. -/
def parse : List Char → Option (List Wildcard)
  | [] => some []
  | '%' :: p => (parse p).map (many :: ·)
  | '_' :: p => (parse p).map (one :: ·)
  | ['\\'] => none
  | '\\' :: c :: p => (parse p).map (exactly c :: ·)
  | c :: p => (parse p).map (exactly c :: ·)

/-- A pattern matches a text, as a whole. -/
def accepts : List Wildcard → List Char → Bool
  | [], text => text.isEmpty
  | many :: p, text => text.tails.any (accepts p)
  | one :: p, _ :: text => accepts p text
  | exactly c :: p, x :: text => x = c && accepts p text
  | _ :: _, [] => false

/-- `text ILIKE pattern`; nothing when the database refuses the pattern. -/
def ilike (collation : Collation) (text pattern : String) : Option Bool :=
  (parse (pattern.toList.map collation.lower)).map (accepts · (text.toList.map collation.lower))

theorem accepts_exactly (q text : List Char) :
    accepts (q.map exactly ++ [many]) text = true ↔ q <+: text := by
  induction q generalizing text with
  | nil => simp [accepts]
  | cons c q ih =>
    cases text with
    | nil => simp [accepts]
    | cons x text =>
      rw [List.cons_prefix_cons, ← ih text]
      simp [accepts, eq_comm (a := c)]

theorem accepts_many (q text : List Char) :
    accepts (many :: (q.map exactly ++ [many])) text = true ↔ q <:+: text := by
  simp [accepts, accepts_exactly, List.infix_iff_prefix_suffix, and_comm]

/-- A character without a meaning stands for itself, whatever follows. -/
theorem parse_plain {c : Char} (h : c ∉ special) (p : List Char) :
    parse (c :: p) = (parse p).map (exactly c :: ·) := by
  obtain ⟨hescape, hmany, hone⟩ : c ≠ '\\' ∧ c ≠ '%' ∧ c ≠ '_' := by simpa [special] using h
  rw [parse]
  · exact fun hc => hmany hc
  · exact fun hc => hone hc
  · exact fun hc _ => hescape hc
  · exact fun _ _ hc _ => hescape hc

theorem escape_cons (c : Char) (q : List Char) :
    escape (c :: q) = (if c ∈ special then ['\\', c] else [c]) ++ escape q := rfl

/-- The database reads an escaped query as the characters of the query. -/
theorem parse_escape (collation : Collation) (q : List Char) :
    parse ((escape q ++ ['%']).map collation.lower)
      = some ((q.map collation.lower).map exactly ++ [many]) := by
  induction q with
  | nil =>
    show parse [collation.lower '%'] = _
    rw [collation.keeps '%' (by decide)]
    rfl
  | cons c q ih =>
    rw [escape_cons, List.append_assoc, List.map_append]
    by_cases hc : c ∈ special
    · rw [if_pos hc]
      show parse (collation.lower '\\' :: collation.lower c
        :: (escape q ++ ['%']).map collation.lower) = _
      rw [collation.keeps '\\' (by decide), parse, ih]
      rfl
    · rw [if_neg hc]
      show parse (collation.lower c :: (escape q ++ ['%']).map collation.lower) = _
      rw [parse_plain (mt (collation.makes c) hc), ih]
      rfl

end Wildcard

-- ======== statements

/-- What a statement is made of: text, and parameters by number. -/
inductive Fragment where
  | text (s : String)
  | placeholder (n : Nat)
  deriving DecidableEq

/-- What is passed for a parameter. -/
inductive Argument where
  | text (s : String)
  | time (t : Int)
  | int (n : Int)
  deriving DecidableEq

/-- `RunFilter`. -/
structure RunFilter where
  query : String
  definitionID : String
  scriptID : String
  serverID : String
  state : String
  from_ : Option Int
  until_ : Option Int
  limit : Int
  offset : Int

/-- The clauses and arguments so far. -/
structure Filtering where
  clauses : List (List Fragment)
  args : List Argument

/-- `add`, for a filter that is set. -/
def Filtering.add (f : Filtering) (expression : String) (value : Option Argument) : Filtering :=
  match value with
  | none => f
  | some value =>
    ⟨f.clauses ++ [[.text expression, .placeholder (f.args.length + 1)]], f.args ++ [value]⟩

/-- A text filter, where the empty text sets none. -/
def given (value : String) : Option Argument := if value ≠ "" then some (.text value) else none

/-- The filters in the order of the source: the expression, and the
argument where the filter is set. -/
def RunFilter.filters (filter : RunFilter) : List (String × Option Argument) :=
  [("concat_ws(' ', definition.name, script.name, server.name, run.id::text) ILIKE $",
      if filter.query ≠ "" then some (.text (searchPattern filter.query)) else none),
    ("run.state=$", given filter.state),
    ("run.task_definition_id=$", given filter.definitionID),
    ("script.id=$", given filter.scriptID),
    ("run.assigned_server_id=$", given filter.serverID),
    ("run.created_at >= $", filter.from_.map .time),
    ("run.created_at < $", filter.until_.map .time)]

/-- The clauses and arguments of filters, from `TRUE` on. -/
def filtering (filters : List (String × Option Argument)) : Filtering :=
  filters.foldl (fun f (expression, value) => f.add expression value) ⟨[[.text "TRUE"]], []⟩

/-- `runFilterQuery`, after the columns and joins of `runViewSelect`. -/
def runFilterQuery (filter : RunFilter) : List Fragment × List Argument :=
  let f := filtering filter.filters
  let args := f.args ++ [.int (filter.limit + 1), .int filter.offset]
  (.text " WHERE " :: [Fragment.text " AND "].intercalate f.clauses
    ++ [.text " ORDER BY run.created_at DESC, run.id DESC LIMIT $", .placeholder (args.length - 1),
      .text " OFFSET $", .placeholder args.length], args)

/-- The number of a parameter. -/
def Fragment.number? : Fragment → Option Nat
  | .text _ => none
  | .placeholder n => some n

/-- The clauses name the arguments in order. -/
def Filtering.Numbered (f : Filtering) : Prop :=
  f.clauses.flatten.filterMap Fragment.number? = List.range' 1 f.args.length

theorem Filtering.Numbered.add {f : Filtering} (h : f.Numbered) (expression : String)
    (value : Option Argument) : (f.add expression value).Numbered := by
  cases value with
  | none => exact h
  | some value =>
    unfold Numbered at *
    simp [Filtering.add, h, Fragment.number?, List.filterMap_cons, List.range'_1_concat,
      Nat.add_comm]

theorem filtering_numbered (filters : List (String × Option Argument)) :
    (filtering filters).Numbered := by
  have hstart : (Filtering.mk [[.text "TRUE"]] []).Numbered := rfl
  unfold filtering
  generalize Filtering.mk [[.text "TRUE"]] [] = f at hstart ⊢
  induction filters generalizing f with
  | nil => exact hstart
  | cons filter filters ih => exact ih _ (hstart.add filter.1 filter.2)

theorem numbers_intercalate (s : String) (clauses : List (List Fragment)) :
    ([Fragment.text s].intercalate clauses).filterMap Fragment.number?
      = clauses.flatten.filterMap Fragment.number? := by
  induction clauses with
  | nil => rfl
  | cons c clauses ih =>
    cases clauses with
    | nil => simp
    | cons d rest =>
      rw [List.intercalate_cons_cons, List.flatten_cons, List.filterMap_append,
        List.filterMap_append, List.filterMap_append, ih]
      show _ ++ [] ++ _ = _
      rw [List.append_nil]

/-- ASCII letters are folded, nothing else. -/
def asciiCollation : Collation where
  lower := Char.toLower
  keeps := by
    intro c hc
    simp only [special, List.mem_cons, List.not_mem_nil, or_false] at hc
    rcases hc with rfl | rfl | rfl <;> rfl
  makes := by
    intro c hc
    unfold Char.toLower at hc
    split at hc
    · -- a small letter is none of them
      next hupper =>
      simp [special, Char.ext_iff, ← UInt32.toNat_inj, UInt32.le_iff_toNat_le] at hupper hc
      omega
    · exact hc

example : Wildcard.ilike asciiCollation "50% Ab" (searchPattern "% a") = some true := by decide

example : Wildcard.ilike asciiCollation "50 Ab" (searchPattern "% a") = some false := by decide

end Yunling.Task

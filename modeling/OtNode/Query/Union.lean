import OtNode.Query.Rewrite

/-! Queries of two repositories, and what is made of their results.

    Both results are spread into one array, of which the first element with each key is kept: the
    key is its values, joined. Rows are spread into rows, and text into its characters. -/

namespace OtNode

open Utf

/-! ### The first of each key -/

section FirstOfKey

variable {α κ : Type*} [DecidableEq κ] (key : α → κ)

/-- The elements whose keys were not seen before. -/
def removeSeen : List κ → List α → List α
  | _, [] => []
  | seen, a :: l => if key a ∈ seen then removeSeen seen l else a :: removeSeen (key a :: seen) l

variable {key} {seen : List κ} {l : List α} {a : α}

/-- What is kept comes first under its key. -/
theorem mem_removeSeen : a ∈ removeSeen key seen l ↔
    key a ∉ seen ∧ l.find? (fun b => key b = key a) = some a := by
  induction l generalizing seen with
  | nil => simp [removeSeen]
  | cons b l ih =>
    rw [removeSeen, List.find?_cons]
    by_cases hkey : key b = key a
    · simp only [hkey, decide_true]
      split_ifs with hseen
      · simp [ih, hseen]
      · rw [List.mem_cons, ih]
        simp [hseen, eq_comm]
    · simp only [hkey, decide_false]
      split_ifs with hseen
      · exact ih
      · rw [List.mem_cons, ih, or_iff_right fun h => hkey (by rw [h]), List.mem_cons, not_or]
        simp [Ne.symm hkey]

/-- No key is kept twice. -/
theorem nodup_removeSeen : ((removeSeen key seen l).map key).Nodup := by
  induction l generalizing seen with
  | nil => exact List.nodup_nil
  | cons b l ih =>
    rw [removeSeen]
    split_ifs with hseen
    · exact ih
    · refine List.nodup_cons.mpr ⟨fun hmem => ?_, ih⟩
      obtain ⟨a, ha, hkey⟩ := List.mem_map.mp hmem
      exact (mem_removeSeen.mp ha).1 (hkey ▸ List.mem_cons_self)

omit [DecidableEq κ] in
/-- With distinct keys, one element has a property if and only if one key has an element with it. -/
theorem countP_eq_one_iff {p : α → Bool} (h : (l.map key).Nodup) :
    l.countP p = 1 ↔ ∃! k, ∃ a ∈ l, key a = k ∧ p a = true := by
  have hnodup : ((l.filter p).map key).Nodup := h.sublist (List.filter_sublist.map key)
  have hmem : ∀ k, k ∈ (l.filter p).map key ↔ ∃ a ∈ l, key a = k ∧ p a = true := by
    intro k
    simp only [List.mem_map, List.mem_filter]
    constructor
    · rintro ⟨a, ⟨ha, hp⟩, hkey⟩
      exact ⟨a, ha, hkey, hp⟩
    · rintro ⟨a, ha, hkey, hp⟩
      exact ⟨a, ⟨ha, hp⟩, hkey⟩
  rw [List.countP_eq_length_filter, ← List.length_map key]
  simp only [← hmem]
  generalize (l.filter p).map key = keys at hnodup
  constructor
  · intro hlength
    obtain ⟨k, rfl⟩ := List.length_eq_one_iff.mp hlength
    exact ⟨k, List.mem_singleton_self k, fun k' hk' => List.mem_singleton.mp hk'⟩
  · rintro ⟨k, hk, hunique⟩
    cases keys with
    | nil => cases hk
    | cons k₁ keys =>
      cases keys with
      | nil => rfl
      | cons k₂ keys =>
        have heq := (hunique k₁ (by simp)).trans (hunique k₂ (by simp)).symm
        simp [heq] at hnodup

end FirstOfKey

/-! ### Results -/

/-- A row: the variables that it binds, in the order of its object, with their terms. -/
structure ResultRow where
  properties : List (JsString × JsString)
  nodup : (properties.map Prod.fst).Nodup
  deriving DecidableEq

namespace ResultRow

/-- `Object.values`. -/
def values (row : ResultRow) : List JsString := row.properties.map Prod.snd

/-- The rows bind the same variables to the same terms. -/
def Same (row other : ResultRow) : Prop := row.properties.Perm other.properties

instance (row other : ResultRow) : Decidable (row.Same other) :=
  inferInstanceAs (Decidable (row.properties.Perm other.properties))

end ResultRow

/-- What a query returns: a text of n-quads, an array of rows, or an array of strings. -/
inductive QueryData where
  | nquads (text : JsString)
  | rows (rows : List ResultRow)
  | strings (strings : List JsString)
  deriving DecidableEq

/-- `QUERY_TYPES`, and any other type. -/
inductive QueryType where
  | construct
  | select
  | other (queryType : JsString)

/-- One repository, or an array of two. -/
inductive QueryRepository where
  | one (repository : JsString)
  | two (repositoryV6 repositoryV8 : JsString)

/-- What the triple store returns for a query to one of its repositories. -/
structure QueryEngine where
  construct : JsString → JsString → Except JsString JsString
  select : JsString → JsString → Except JsString (List ResultRow)

/-- `Object.values(item).join('_')`. -/
def joined (values : List JsString) : JsString := [unit '_'].intercalate values

/-- `removeDuplicateObjectsFromArray`, by the values of an element. -/
def removeDuplicateObjectsFromArray {α : Type} (values : α → List JsString) (array : List α) :
    List α :=
  removeSeen (fun item => joined (values item)) [] array

/-- The elements of a string that is spread: its code points, each a string. -/
def spread (text : JsString) : List JsString := (codePoints text).map utf16

/-- `Object.values` of a string: its units. -/
def unitValues (text : JsString) : List JsString := text.map fun c => [c]

namespace QueryEngine

variable (engine : QueryEngine)

/-- The results of a query by its type. -/
def queryData (query : JsString) : QueryType → QueryRepository → Except JsString QueryData
  | .construct, .one repository => do
    let data ← engine.construct query repository
    pure (.nquads data)
  | .construct, .two repositoryV6 repositoryV8 => do
    let dataV6 ← engine.construct query repositoryV6
    let dataV8 ← engine.construct query repositoryV8
    pure (.strings (removeDuplicateObjectsFromArray unitValues (spread dataV6 ++ spread dataV8)))
  | .select, .one repository => do
    let data ← engine.select query repository
    pure (.rows data)
  | .select, .two repositoryV6 repositoryV8 => do
    let dataV6 ← engine.select query repositoryV6
    let dataV8 ← engine.select query repositoryV8
    pure (.rows (removeDuplicateObjectsFromArray ResultRow.values (dataV6 ++ dataV8)))
  | .other queryType, _ => .error (units "Unknown query type " ++ queryType)

end QueryEngine

/-- How a query ends: with what nothing catches, with `handleError`, or with its data cached. -/
inductive QueryEnd where
  | thrown (message : JsString)
  | failed (message : JsString)
  | completed (data : QueryData)
  deriving DecidableEq

/-- What the command reads of its data. -/
structure QueryRequest where
  query : JsString
  queryType : QueryType
  repository : QueryRepository
  paranetUAL : Option JsString := none

namespace QueryCommand

variable (command : QueryCommand) (engine : QueryEngine)

/-- The repository: that of the paranet, where there is one. -/
def repositoryOf (request : QueryRequest) : Except JsString QueryRepository :=
  if request.paranetUAL.getD [] = [] then .ok request.repository
  else do
    let repository ←
      ParanetService.getParanetRepositoryName command.table (request.paranetUAL.getD [])
    pure (.one repository)

/-- What the query is run with: its text and its repository. -/
def prepare (request : QueryRequest) : Except JsString (JsString × QueryRepository) := do
  let repository ← command.repositoryOf request
  let query ← command.rewrite request.query
  pure (query, repository)

/-- `execute`. -/
def execute (request : QueryRequest) : QueryEnd :=
  match command.prepare request with
  | .error message => .thrown message
  | .ok (query, repository) =>
    match engine.queryData query request.queryType repository with
    | .error message => .failed message
    | .ok data => .completed data

end QueryCommand

/-! ### The union -/

/-- Of what either list has, each once, and nothing else. -/
structure IsUnion {α : Type} (same : α → α → Prop) [DecidableRel same]
    (first second union : List α) : Prop where
  once : ∀ a ∈ first ++ second, union.countP (fun b => decide (same a b)) = 1
  only : ∀ b ∈ union, ∃ a ∈ first ++ second, same a b

/-- The n-quads of a text. -/
def nquadLines (text : JsString) : List JsString :=
  (text.splitOn (unit '\n')).filter (· ≠ [])

/-- The data is the union of two results, in their shape. -/
def Unites : QueryData → QueryData → QueryData → Prop
  | .rows dataV6, .rows dataV8, .rows data => IsUnion ResultRow.Same dataV6 dataV8 data
  | .nquads dataV6, .nquads dataV8, .nquads data =>
    IsUnion Eq (nquadLines dataV6) (nquadLines dataV8) (nquadLines data)
  | _, _, _ => False

/-- Of the keys of a row, which may list its variables in several orders, one has the row first. -/
def OneKey (rows : List ResultRow) : Prop :=
  ∀ row ∈ rows, ∃! key, ∃ first,
    rows.find? (fun other => joined other.values = key) = some first ∧ row.Same first

/-- What is merged is the union if and only if one key of each row has the row first. -/
theorem isUnion_iff {dataV6 dataV8 : List ResultRow} :
    IsUnion ResultRow.Same dataV6 dataV8
        (removeDuplicateObjectsFromArray ResultRow.values (dataV6 ++ dataV8)) ↔
      OneKey (dataV6 ++ dataV8) := by
  have hmem : ∀ first, first ∈ removeDuplicateObjectsFromArray ResultRow.values
      (dataV6 ++ dataV8) ↔ (dataV6 ++ dataV8).find?
        (fun other => joined other.values = joined first.values) = some first := by
    intro first
    rw [removeDuplicateObjectsFromArray, mem_removeSeen]
    exact and_iff_right List.not_mem_nil
  have hkeys : ∀ (row : ResultRow) (key : JsString),
      (∃ first ∈ removeDuplicateObjectsFromArray ResultRow.values (dataV6 ++ dataV8),
        joined first.values = key ∧ decide (row.Same first) = true) ↔
      ∃ first, (dataV6 ++ dataV8).find? (fun other => joined other.values = key) = some first ∧
        row.Same first := by
    intro row key
    constructor
    · rintro ⟨first, hfirst, rfl, hsame⟩
      exact ⟨first, (hmem first).mp hfirst, of_decide_eq_true hsame⟩
    · rintro ⟨first, hfirst, hsame⟩
      have hkey : joined first.values = key := by simpa using List.find?_some hfirst
      subst hkey
      exact ⟨first, (hmem first).mpr hfirst, rfl, decide_eq_true hsame⟩
  have hone : ∀ row : ResultRow,
      (removeDuplicateObjectsFromArray ResultRow.values (dataV6 ++ dataV8)).countP
          (fun other => decide (row.Same other)) = 1 ↔
        ∃! key, ∃ first, (dataV6 ++ dataV8).find? (fun other => joined other.values = key) =
          some first ∧ row.Same first := by
    intro row
    rw [removeDuplicateObjectsFromArray, countP_eq_one_iff nodup_removeSeen,
      ← removeDuplicateObjectsFromArray]
    simp only [hkeys]
  constructor
  · intro hunion row hrow
    exact (hone row).mp (hunion.once row hrow)
  · intro honeKey
    refine ⟨fun row hrow => (hone row).mpr (honeKey row hrow), ?_⟩
    intro row hrow
    exact ⟨row, List.mem_of_find?_eq_some ((hmem row).mp hrow), List.Perm.refl _⟩

/-- CODE BUG (two repositories): what a query of two repositories returns is the union of what they
    return if and only if it is a SELECT, and one key of each row has the row first. -/
theorem execute_unites_iff (command : QueryCommand) (engine : QueryEngine)
    {query executed repositoryV6 repositoryV8 : JsString} {queryType : QueryType}
    {dataV6 dataV8 : QueryData} (hquery : command.rewrite query = .ok executed)
    (hV6 : engine.queryData executed queryType (.one repositoryV6) = .ok dataV6)
    (hV8 : engine.queryData executed queryType (.one repositoryV8) = .ok dataV8) :
    ∃ data, command.execute engine
        { query, queryType, repository := .two repositoryV6 repositoryV8 } = .completed data ∧
      (Unites dataV6 dataV8 data ↔ ∃ rowsV6 rowsV8, dataV6 = .rows rowsV6 ∧
        dataV8 = .rows rowsV8 ∧ OneKey (rowsV6 ++ rowsV8)) := by
  have hprepare : command.prepare
      { query, queryType, repository := .two repositoryV6 repositoryV8 } =
        .ok (executed, .two repositoryV6 repositoryV8) := by
    rw [QueryCommand.prepare, hquery]
    rfl
  rw [QueryCommand.execute, hprepare]
  cases queryType with
  | construct =>
    obtain ⟨textV6, htextV6, hV6⟩ := bind_eq_ok hV6
    obtain ⟨textV8, htextV8, hV8⟩ := bind_eq_ok hV8
    cases hV6
    cases hV8
    refine ⟨.strings (removeDuplicateObjectsFromArray unitValues (spread textV6 ++ spread textV8)),
      ?_, ?_⟩
    · simp only [QueryEngine.queryData, htextV6, htextV8]
      rfl
    · -- an array is no text
      refine iff_of_false not_false ?_
      rintro ⟨rowsV6, rowsV8, hrows, -⟩
      cases hrows
  | select =>
    obtain ⟨rowsV6, hrowsV6, hV6⟩ := bind_eq_ok hV6
    obtain ⟨rowsV8, hrowsV8, hV8⟩ := bind_eq_ok hV8
    cases hV6
    cases hV8
    refine ⟨.rows (removeDuplicateObjectsFromArray ResultRow.values (rowsV6 ++ rowsV8)), ?_, ?_⟩
    · simp only [QueryEngine.queryData, hrowsV6, hrowsV8]
      rfl
    · rw [Unites, isUnion_iff]
      constructor
      · intro honeKey
        exact ⟨rowsV6, rowsV8, rfl, rfl, honeKey⟩
      · rintro ⟨_, _, hrowsV6, hrowsV8, honeKey⟩
        cases hrowsV6
        cases hrowsV8
        exact honeKey
  | other queryType => cases hV6

/-- Where rows that are the same list their variables in the same order, the union is returned if
    and only if rows with the same values, joined, are the same. -/
theorem oneKey_iff {rows : List ResultRow}
    (horder : ∀ row ∈ rows, ∀ other ∈ rows, row.Same other → row.values = other.values) :
    OneKey rows ↔ ∀ row ∈ rows, ∀ other ∈ rows, joined row.values = joined other.values →
      row.Same other := by
  have hfind : ∀ row ∈ rows, ∃ first, rows.find?
      (fun other => joined other.values = joined row.values) = some first ∧
        joined first.values = joined row.values ∧ first ∈ rows := by
    intro row hrow
    have hsome : (rows.find? fun other => joined other.values = joined row.values).isSome :=
      List.find?_isSome.mpr ⟨row, hrow, by simp⟩
    obtain ⟨first, hfirst⟩ := Option.isSome_iff_exists.mp hsome
    exact ⟨first, hfirst, by simpa using List.find?_some hfirst, List.mem_of_find?_eq_some hfirst⟩
  constructor
  · intro honeKey row hrow other hother hkey
    obtain ⟨first, hfirst, -, -⟩ := hfind row hrow
    have hsame : ∀ row' ∈ rows, joined row'.values = joined row.values → row'.Same first := by
      intro row' hrow' hkey'
      obtain ⟨key, ⟨first', hfirst', hsame⟩, -⟩ := honeKey row' hrow'
      have hkey'' : joined first'.values = key := by simpa using List.find?_some hfirst'
      rw [← hkey'', ← horder row' hrow' first' (List.mem_of_find?_eq_some hfirst') hsame, hkey',
        hfirst] at hfirst'
      cases hfirst'
      exact hsame
    exact (hsame row hrow rfl).trans (hsame other hother hkey.symm).symm
  · intro hinjective row hrow
    obtain ⟨first, hfirst, hkey, hmem⟩ := hfind row hrow
    refine ⟨joined row.values, ⟨first, hfirst, hinjective row hrow first hmem hkey.symm⟩, ?_⟩
    rintro key ⟨first', hfirst', hsame⟩
    have hkey' : joined first'.values = key := by simpa using List.find?_some hfirst'
    rw [← hkey', horder row hrow first' (List.mem_of_find?_eq_some hfirst') hsame]

/-- A row of two variables. -/
def pairRow (a b : String) : ResultRow where
  properties := [(units "a", units a), (units "b", units b)]
  nodup := show [units "a", units "b"].Nodup by decide

/-- A store with one row in each repository, and a text. -/
def pairStore (rowV6 rowV8 : ResultRow) : QueryEngine where
  construct _ _ := .ok (units "<s> <p> <o> .")
  select _ repository := .ok (if repository = units "dkg" then [rowV8] else [rowV6])

/-- A query of two repositories. -/
def pairRequest (queryType : QueryType) : QueryRequest where
  query := units "SELECT * {}"
  queryType
  repository := .two (units "publicCurrent") (units "dkg")

theorem execute_unites_iff_pair :
    ∃ data, QueryCommand.dkgNode.execute (pairStore (pairRow "x" "y") (pairRow "x" "z"))
        (pairRequest .select) = .completed data ∧
      (Unites (.rows [pairRow "x" "y"]) (.rows [pairRow "x" "z"]) data ↔
        ∃ rowsV6 rowsV8, QueryData.rows [pairRow "x" "y"] = .rows rowsV6 ∧
          QueryData.rows [pairRow "x" "z"] = .rows rowsV8 ∧ OneKey (rowsV6 ++ rowsV8)) :=
  execute_unites_iff QueryCommand.dkgNode (pairStore (pairRow "x" "y") (pairRow "x" "z"))
    (show QueryCommand.dkgNode.rewrite (units "SELECT * {}") = .ok (units "SELECT * {}") by
      decide +kernel) rfl rfl

/-- COUNTEREXAMPLE: rows whose terms are parted otherwise are taken for one, and a text for an array
    of its characters. -/
theorem execute_not_unites :
    (QueryCommand.dkgNode.execute (pairStore (pairRow "x_y" "z") (pairRow "x" "y_z"))
        (pairRequest .select) = .completed (.rows [pairRow "x_y" "z"]) ∧
      ¬ Unites (.rows [pairRow "x_y" "z"]) (.rows [pairRow "x" "y_z"])
        (.rows [pairRow "x_y" "z"])) ∧
    QueryCommand.dkgNode.execute (pairStore (pairRow "x" "y") (pairRow "x" "z"))
        (pairRequest .construct) =
          .completed (.strings (["<", "s", ">", " ", "p", "o", "."].map units)) ∧
      ¬ Unites (.nquads (units "<s> <p> <o> .")) (.nquads (units "<s> <p> <o> ."))
        (.strings (["<", "s", ">", " ", "p", "o", "."].map units)) := by
  refine ⟨⟨by decide +kernel, fun hunion => ?_⟩, by decide +kernel, not_false⟩
  have hlost := hunion.once (pairRow "x" "y_z") (by simp)
  revert hlost
  decide

end OtNode

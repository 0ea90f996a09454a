import Mathlib.Data.List.Basic
import Mathlib.Data.List.DropRight
import Mathlib.Tactic.Common

/-! Path names: joining and normalising them, and where they lead.

    A path is a string over any alphabet with a separator and a dot. Normalising resolves the segments
    from left to right on a stack, `..` takes one off. On a relative path the segments `..` that find
    the stack empty stay in front; on an absolute path they are dropped. -/

namespace OtNode.Posix

variable {α : Type} [DecidableEq α] (sep dot : α)

/-- The segments between separators, some of which may be empty. -/
def segments (p : List α) : List (List α) := p.splitOn sep

/-- The names in a path. -/
def parts (p : List α) : List (List α) := (segments sep p).filter (· ≠ [])

/-- One segment resolved on a stack, the last name first. -/
def push (absolute : Bool) (stack : List (List α)) (s : List α) : List (List α) :=
  if s = [] ∨ s = [dot] then stack
  else if s = [dot, dot] then
    match stack with
    | [] => if absolute then [] else [s]
    | top :: rest => if top = [dot, dot] then s :: top :: rest else rest
  else s :: stack

/-- The segments resolved on a stack. -/
def resolve (absolute : Bool) (stack segs : List (List α)) : List (List α) :=
  segs.foldl (push dot absolute) stack

/-- `path.normalize`: a separator at the end stays. -/
def normalize (p : List α) : List α :=
  let absolute := p.head? = some sep
  let body := [sep].intercalate (resolve dot absolute [] (segments sep p)).reverse
  let body := if body = [] ∧ ¬ absolute then [dot] else body
  let body := if body ≠ [] ∧ p.getLast? = some sep then body ++ [sep] else body
  if absolute then sep :: body else body

/-- `path.join`: empty arguments are left out. -/
def join (ps : List (List α)) : List α :=
  match ps.filter (· ≠ []) with
  | [] => [dot]
  | qs => normalize sep dot ([sep].intercalate qs)

/-- A name: a segment that stands for itself. -/
structure Plain (s : List α) : Prop where
  nonempty : s ≠ []
  notDot : s ≠ [dot]
  notDotDot : s ≠ [dot, dot]
  noSep : sep ∉ s

/-- A path names an entry of a directory, not one further down or elsewhere. -/
def DirectlyInside (dir p : List α) : Prop :=
  ∃ name, Plain sep dot name ∧ parts sep p = parts sep dir ++ [name]

/-- A path normalised by itself. -/
def relative (p : List α) : List (List α) := (resolve dot false [] (segments sep p)).reverse

/-! ### Segments -/

variable {sep dot}

theorem segments_append (p q : List α) :
    segments sep (p ++ sep :: q) = segments sep p ++ segments sep q :=
  List.splitOnP_append_cons p q (by simp)

theorem segments_intercalate {qs : List (List α)} (h : qs ≠ []) :
    segments sep ([sep].intercalate qs) = qs.flatMap (segments sep) := by
  induction qs with
  | nil => exact absurd rfl h
  | cons q qs ih =>
    cases qs with
    | nil => simp
    | cons r qs =>
      have hstep : [sep].intercalate (q :: r :: qs) = q ++ sep :: [sep].intercalate (r :: qs) := by
        simp [List.intercalate]
      rw [hstep, segments_append, ih (by simp), ← List.flatMap_cons]

theorem parts_append (p q : List α) : parts sep (p ++ sep :: q) = parts sep p ++ parts sep q := by
  rw [parts, segments_append, List.filter_append]
  rfl

theorem parts_nil : parts sep ([] : List α) = [] := by simp [parts, segments]

theorem segments_of_not_mem {s : List α} (h : sep ∉ s) : segments sep s = [s] := by
  have hs := List.splitOn_intercalate sep (show ∀ l ∈ [s], sep ∉ l by simpa using h) (by simp)
  simpa [segments] using hs

theorem not_mem_of_mem_segments {p : List α} : ∀ s ∈ segments sep p, sep ∉ s := by
  induction p with
  | nil => simp [segments]
  | cons c p ih =>
    intro s hs
    rw [segments, List.splitOn_eq_splitOnP, List.splitOnP_cons_eq_if_modifyHead,
      ← List.splitOn_eq_splitOnP] at hs
    split_ifs at hs with hc
    · rcases List.mem_cons.1 hs with rfl | hs
      · simp
      · exact ih s hs
    · obtain ⟨t, ts, ht⟩ := List.exists_cons_of_ne_nil
        (show p.splitOn sep ≠ [] by rw [List.splitOn_eq_splitOnP]; exact List.splitOnP_ne_nil _ _)
      rw [ht, List.modifyHead_cons] at hs
      have hmem : ∀ u ∈ t :: ts, sep ∉ u := by rw [← ht]; exact ih
      rcases List.mem_cons.1 hs with rfl | hs
      · have hne : sep ≠ c := by
          rintro rfl
          simp at hc
        simp [hne, hmem t (by simp)]
      · exact hmem s (by simp [hs])

/-! ### Resolving -/

theorem push_nil (b : Bool) (stack : List (List α)) : push dot b stack [] = stack := by simp [push]

theorem resolve_append (b : Bool) (stack s t : List (List α)) :
    resolve dot b stack (s ++ t) = resolve dot b (resolve dot b stack s) t :=
  List.foldl_append

/-- Empty segments count for nothing. -/
theorem resolve_filter (b : Bool) (stack segs : List (List α)) :
    resolve dot b stack (segs.filter (· ≠ [])) = resolve dot b stack segs := by
  induction segs generalizing stack with
  | nil => rfl
  | cons s segs ih =>
    by_cases hs : s = []
    · subst hs
      rw [List.filter_cons_of_neg (by simp), ih]
      simp only [resolve, List.foldl_cons, push_nil]
    · rw [List.filter_cons_of_pos (by simpa using hs)]
      exact ih _

/-- Names are put on the stack. -/
theorem resolve_plain {b : Bool} {names : List (List α)} (h : ∀ s ∈ names, Plain sep dot s)
    (stack : List (List α)) : resolve dot b stack names = names.reverse ++ stack := by
  induction names generalizing stack with
  | nil => rfl
  | cons s names ih =>
    have hs := h s (by simp)
    have hpush : push dot b stack s = s :: stack := by
      simp [push, hs.nonempty, hs.notDot, hs.notDotDot]
    rw [resolve, List.foldl_cons, hpush]
    rw [show names.foldl (push dot b) (s :: stack) = resolve dot b (s :: stack) names from rfl,
      ih (fun t ht => h t (by simp [ht]))]
    simp

/-- Segments resolved on a stack of names, and by themselves: `..` that is left over takes a name off
    the stack. -/
theorem resolve_climb {base segs : List (List α)} (hbase : ∀ s ∈ base, Plain sep dot s)
    (hsegs : ∀ s ∈ segs, sep ∉ s) :
    ∃ k names, (∀ s ∈ names, Plain sep dot s) ∧
      resolve dot false [] segs = names ++ List.replicate k [dot, dot] ∧
      resolve dot true base segs = names ++ base.drop k := by
  induction segs using List.reverseRecOn with
  | nil => exact ⟨0, [], by simp, rfl, by simp [resolve]⟩
  | append_singleton segs s ih =>
    obtain ⟨k, names, hnames, hrel, habs⟩ := ih fun t ht => hsegs t (by simp [ht])
    rw [resolve_append, resolve_append, hrel, habs]
    simp only [resolve, List.foldl_cons, List.foldl_nil]
    by_cases hskip : s = [] ∨ s = [dot]
    · exact ⟨k, names, hnames, by simp only [push, if_pos hskip], by simp only [push, if_pos hskip]⟩
    · by_cases hup : s = [dot, dot]
      · simp only [push, if_neg hskip, if_pos hup]
        cases names with
        | cons name names =>
          have hname := (hnames name (by simp)).notDotDot
          refine ⟨k, names, fun t ht => hnames t (by simp [ht]), ?_, ?_⟩ <;>
            simp only [List.cons_append, if_neg hname]
        | nil =>
          refine ⟨k + 1, [], by simp, ?_, ?_⟩
          · cases k with
            | zero => simp [hup]
            | succ k => simp [List.replicate_succ, hup]
          · rw [List.nil_append, List.nil_append, ← List.drop_drop]
            rcases hdrop : base.drop k with - | ⟨top, rest⟩
            · rfl
            · have htop : top ≠ [dot, dot] :=
                (hbase top (List.mem_of_mem_drop (by rw [hdrop]; simp))).notDotDot
              simp [htop]
      · have hs : Plain sep dot s :=
          ⟨fun h => hskip (.inl h), fun h => hskip (.inr h), hup, hsegs s (by simp)⟩
        refine ⟨k, s :: names, ?_, ?_, ?_⟩
        · rintro t ht
          rcases List.mem_cons.1 ht with rfl | ht
          · exact hs
          · exact hnames t ht
        · simp only [push, if_neg hskip, if_neg hup, List.cons_append]
        · simp only [push, if_neg hskip, if_neg hup, List.cons_append]

omit [DecidableEq α] in
/-- What is left of climbing and naming is unique. -/
theorem climb_unique {k l : ℕ} {s t : List (List α)} (hs : ∀ x ∈ s, Plain sep dot x)
    (ht : ∀ x ∈ t, Plain sep dot x)
    (h : List.replicate k [dot, dot] ++ s = List.replicate l [dot, dot] ++ t) : k = l ∧ s = t := by
  induction k generalizing l with
  | zero =>
    cases l with
    | zero => exact ⟨rfl, by simpa using h⟩
    | succ l =>
      have hmem : [dot, dot] ∈ s := by
        rw [List.replicate_zero, List.nil_append] at h
        rw [h, List.replicate_succ]
        simp
      exact absurd rfl (hs _ hmem).notDotDot
  | succ k ih =>
    cases l with
    | zero =>
      have hmem : [dot, dot] ∈ t := by
        rw [List.replicate_zero, List.nil_append] at h
        rw [← h, List.replicate_succ]
        simp
      exact absurd rfl (ht _ hmem).notDotDot
    | succ l =>
      rw [List.replicate_succ, List.replicate_succ, List.cons_append, List.cons_append,
        List.cons.injEq] at h
      obtain ⟨rfl, rfl⟩ := ih h.2
      exact ⟨rfl, rfl⟩

/-- Segments that lead from a directory to a name directly inside it: by themselves they climb some
    directories, name as many of the last directories again, and end in the name. -/
theorem resolve_inside_iff {dir segs : List (List α)} {name : List α}
    (hdir : ∀ s ∈ dir, Plain sep dot s) (hsegs : ∀ s ∈ segs, sep ∉ s) (hname : Plain sep dot name) :
    (resolve dot true dir.reverse segs).reverse = dir ++ [name] ↔
      ∃ k, (resolve dot false [] segs).reverse =
        List.replicate k [dot, dot] ++ (dir.rtake k ++ [name]) := by
  obtain ⟨k, names, hnames, hrel, habs⟩ :=
    resolve_climb (show ∀ s ∈ dir.reverse, Plain sep dot s by simpa using hdir) hsegs
  have hdrop : (dir.reverse.drop k).reverse = dir.rdrop k := by
    rw [List.drop_reverse, List.reverse_reverse, List.rdrop]
  have hsplit : dir.rdrop k ++ dir.rtake k = dir := by
    rw [List.rdrop, List.rtake, List.take_append_drop]
  rw [habs, hrel, List.reverse_append, List.reverse_append, List.reverse_replicate, hdrop]
  constructor
  · intro h
    have hcancel : dir.rdrop k ++ names.reverse = dir.rdrop k ++ (dir.rtake k ++ [name]) := by
      rw [← List.append_assoc, hsplit]
      exact h
    exact ⟨k, by rw [List.append_cancel_left hcancel]⟩
  · rintro ⟨l, h⟩
    have hleft : ∀ x ∈ names.reverse, Plain sep dot x := by simpa using hnames
    have hright : ∀ x ∈ dir.rtake l ++ [name], Plain sep dot x := by
      intro x hx
      rcases List.mem_append.1 hx with hx | hx
      · exact hdir x (List.mem_of_mem_drop hx)
      · rw [List.mem_singleton.1 hx]
        exact hname
    obtain ⟨rfl, hlast⟩ := climb_unique hleft hright h
    rw [hlast, ← List.append_assoc, hsplit]

/-- Resolving on a stack of names leaves names. -/
theorem plain_resolve {base segs : List (List α)} (hbase : ∀ s ∈ base, Plain sep dot s)
    (hsegs : ∀ s ∈ segs, sep ∉ s) : ∀ s ∈ resolve dot true base segs, Plain sep dot s := by
  obtain ⟨k, names, hnames, -, habs⟩ := resolve_climb hbase hsegs
  rw [habs]
  rintro s hs
  rcases List.mem_append.1 hs with hs | hs
  · exact hnames s hs
  · exact hbase s (List.mem_of_mem_drop hs)

/-! ### Absolute paths -/

theorem parts_of_plain {names : List (List α)} (h : ∀ s ∈ names, Plain sep dot s) :
    (names.flatMap (segments sep)).filter (· ≠ []) = names := by
  induction names with
  | nil => rfl
  | cons s names ih =>
    have hs := h s (by simp)
    rw [List.flatMap_cons, segments_of_not_mem hs.noSep, List.filter_append,
      ih fun t ht => h t (by simp [ht])]
    simp [hs.nonempty]

theorem parts_intercalate {names : List (List α)} (h : ∀ s ∈ names, Plain sep dot s) :
    parts sep ([sep].intercalate names) = names := by
  cases names with
  | nil => simp [parts, segments]
  | cons s names => rw [parts, segments_intercalate (by simp), parts_of_plain h]

/-- The names of an absolute path that was normalised are the names it resolves to. -/
theorem parts_normalize {p : List α} (h : p.head? = some sep) :
    parts sep (normalize sep dot p) = (resolve dot true [] (segments sep p)).reverse := by
  have hplain : ∀ s ∈ (resolve dot true [] (segments sep p)).reverse, Plain sep dot s := by
    intro s hs
    exact plain_resolve (by simp) not_mem_of_mem_segments s (List.mem_reverse.1 hs)
  simp only [normalize, h, not_true_eq_false, and_false, if_false, if_true, decide_true]
  generalize (resolve dot true [] (segments sep p)).reverse = names at hplain
  rw [← List.nil_append (sep :: _), parts_append, parts_nil, List.nil_append]
  split_ifs
  · rw [parts_append, parts_nil, List.append_nil, parts_intercalate hplain]
  · exact parts_intercalate hplain

theorem head_normalize {p : List α} (h : p.head? = some sep) :
    (normalize sep dot p).head? = some sep := by
  simp [normalize, h]

/-- Arguments left out by `join` count for nothing. -/
theorem resolve_flatMap_filter (b : Bool) (stack : List (List α)) (qs : List (List α)) :
    resolve dot b stack ((qs.filter (· ≠ [])).flatMap (segments sep)) =
      resolve dot b stack (qs.flatMap (segments sep)) := by
  induction qs generalizing stack with
  | nil => rfl
  | cons q qs ih =>
    by_cases hq : q = []
    · subst hq
      rw [List.filter_cons_of_neg (by simp), ih, List.flatMap_cons, resolve_append]
      simp [resolve, segments, push_nil]
    · rw [List.filter_cons_of_pos (by simpa using hq), List.flatMap_cons, List.flatMap_cons,
        resolve_append, resolve_append, ih]

/-- An absolute path joined with others leads where all their segments lead. -/
theorem parts_join {p : List α} (h : p.head? = some sep) (qs : List (List α)) :
    parts sep (join sep dot (p :: qs)) =
        (resolve dot true [] ((p :: qs).flatMap (segments sep))).reverse ∧
      (join sep dot (p :: qs)).head? = some sep := by
  have hp : p ≠ [] := by
    rintro rfl
    simp at h
  have hfilter : (p :: qs).filter (· ≠ []) = p :: qs.filter (· ≠ []) :=
    List.filter_cons_of_pos (by simpa using hp)
  have hjoin : join sep dot (p :: qs) =
      normalize sep dot ([sep].intercalate ((p :: qs).filter (· ≠ []))) := by
    rw [join, hfilter]
  have hhead : ([sep].intercalate ((p :: qs).filter (· ≠ []))).head? = some sep := by
    rw [hfilter]
    cases qs.filter (· ≠ []) with
    | nil => simpa using h
    | cons q qs =>
      rw [List.intercalate, List.intersperse_cons_cons, List.flatten_cons, List.head?_append, h]
      rfl
  rw [hjoin, parts_normalize hhead, segments_intercalate (by rw [hfilter]; simp),
    resolve_flatMap_filter]
  exact ⟨rfl, head_normalize hhead⟩

/-- The stack an absolute path resolves to, read off its names. -/
theorem resolve_segments_of_parts {p : List α} (h : ∀ s ∈ parts sep p, Plain sep dot s) :
    resolve dot true [] (segments sep p) = (parts sep p).reverse := by
  rw [← resolve_filter]
  exact (resolve_plain h []).trans (List.append_nil _)

/-- Joining leaves names only. -/
theorem plain_parts_join {p : List α} (h : p.head? = some sep) (qs : List (List α)) :
    ∀ s ∈ parts sep (join sep dot (p :: qs)), Plain sep dot s := by
  rw [(parts_join h qs).1]
  intro s hs
  refine plain_resolve (by simp) ?_ s (List.mem_reverse.1 hs)
  intro t ht
  obtain ⟨q, -, htq⟩ := List.mem_flatMap.1 ht
  exact not_mem_of_mem_segments t htq

/-- The names of a directory joined with a path. -/
theorem parts_join_pair {dir q : List α} (h : dir.head? = some sep)
    (hdir : ∀ s ∈ parts sep dir, Plain sep dot s) :
    parts sep (join sep dot [dir, q]) =
      (resolve dot true (parts sep dir).reverse (segments sep q)).reverse := by
  rw [(parts_join h [q]).1, List.flatMap_cons, List.flatMap_singleton, resolve_append,
    resolve_segments_of_parts hdir]

/-- Joining a directory with a path leads directly inside the directory if and only if the path, by
    itself, climbs some directories, names as many of the last ones again, and ends in one name. -/
theorem directlyInside_join_iff {dir q : List α} (h : dir.head? = some sep)
    (hdir : ∀ s ∈ parts sep dir, Plain sep dot s) :
    DirectlyInside sep dot dir (join sep dot [dir, q]) ↔
      ∃ k name, Plain sep dot name ∧ relative sep dot q =
        List.replicate k [dot, dot] ++ ((parts sep dir).rtake k ++ [name]) := by
  have hparts := parts_join_pair (q := q) h hdir
  constructor
  · rintro ⟨name, hname, heq⟩
    rw [hparts] at heq
    obtain ⟨k, hk⟩ := (resolve_inside_iff hdir not_mem_of_mem_segments hname).1 heq
    exact ⟨k, name, hname, hk⟩
  · rintro ⟨k, name, hname, hk⟩
    refine ⟨name, hname, ?_⟩
    rw [hparts]
    exact (resolve_inside_iff hdir not_mem_of_mem_segments hname).2 ⟨k, hk⟩

end OtNode.Posix

import OtNode.Lib.Table
import OtNode.Lib.Trace

/-! The handlers of a module, by the names of its implementations.

    A lookup and a removal look at how many handlers are left. With a single one they take it, under
    whatever name they were asked for; and past that the lookup reads a property of a plain object,
    which has names of its own. The manager of the blockchains has a lookup without either. -/

namespace OtNode

open Trace

/-- What is registered for an implementation: the module, which knows the name, and its
    configuration. -/
structure ModuleHandler (Module Config : Type) where
  implementationName : String
  module : Module
  config : Config
  deriving DecidableEq

variable {Module Config : Type}

/-- `this.handlers`, in the order of `Object.keys`. -/
abbrev Handlers (Module Config : Type) :=
  Table (ModuleHandler.implementationName : ModuleHandler Module Config → String)

/-- A property of the object: a handler, or what `Object.prototype` has under the name. -/
inductive HandlerProperty (Module Config : Type) where
  | handler (handler : ModuleHandler Module Config)
  | inherited (name : String)
  deriving DecidableEq

/-- The names that every object has. -/
def objectPrototypeNames : List String :=
  ["constructor", "__defineGetter__", "__defineSetter__", "hasOwnProperty", "__lookupGetter__",
    "__lookupSetter__", "isPrototypeOf", "propertyIsEnumerable", "toString", "valueOf",
    "__proto__", "toLocaleString"]

/-- A call with the name of an implementation. -/
inductive ModuleCall where
  | getImplementation (name : String)
  | removeImplementation (name : String)
  deriving DecidableEq

namespace Handlers

variable (handlers : Handlers Module Config)

/-- The handler that is registered under the name. -/
def registered (name : String) : Option (ModuleHandler Module Config) :=
  handlers.rows.find? fun handler => handler.implementationName = name

/-- `this.handlers[name]`. -/
def property (name : String) : Option (HandlerProperty Module Config) :=
  match handlers.registered name with
  | some handler => some (.handler handler)
  | none => if name ∈ objectPrototypeNames then some (.inherited name) else none

/-- `delete this.handlers[name]`. -/
def delete (name : String) : Handlers Module Config :=
  handlers.destroy fun handler => handler.implementationName = name

/-- `keys.length === 1 || !name`: the first key is taken. -/
def TakesFirst (names : List String) (name : String) : Prop := names.length = 1 ∨ name = ""

instance (names : List String) (name : String) : Decidable (TakesFirst names name) :=
  inferInstanceAs (Decidable (_ ∨ _))

/-- `getImplementation`. -/
def getImplementation (name : String) : Option (HandlerProperty Module Config) :=
  if TakesFirst handlers.keys name then handlers.rows.head?.map .handler
  else handlers.property name

/-- `removeImplementation`. -/
def removeImplementation (name : String) : Handlers Module Config :=
  if TakesFirst handlers.keys name then
    match handlers.rows.head? with
    | some first => (handlers.delete first.implementationName).delete name
    | none => handlers.delete name
  else handlers.delete name

/-- `getImplementationNames`. -/
def getImplementationNames : List String := handlers.keys

/-- `getImplementation` of the manager of the blockchains. -/
def getBlockchainImplementation (name : String) :
    Except String (Option (HandlerProperty Module Config)) :=
  if name ∉ handlers.keys then
    .error ("Blockchain: " ++ name ++ " implementation is not enabled.")
  else .ok (handlers.property name)

/-- What a call leaves. -/
def call : ModuleCall → Handlers Module Config
  | .getImplementation _ => handlers
  | .removeImplementation name => handlers.removeImplementation name

/-- What a run of calls leaves. -/
def run (calls : List ModuleCall) : Handlers Module Config := calls.foldl call handlers

/-- The handlers that no call of the run names for removal. -/
def without (calls : List ModuleCall) : Handlers Module Config :=
  handlers.destroy fun handler => .removeImplementation handler.implementationName ∈ calls

/-- A lookup after the calls finds the handler under its name, unless a call removed it; a removal
    after them leaves the handlers with other names, as they are. -/
def Answers (before : List ModuleCall) : ModuleCall → Prop
  | .getImplementation name =>
    (handlers.run before).getImplementation name =
      if .removeImplementation name ∈ before then none
      else (handlers.registered name).map .handler
  | .removeImplementation name =>
    ((handlers.run before).removeImplementation name).rows =
      (handlers.run before).rows.filter fun handler => handler.implementationName ≠ name

/-- Every call of the run is answered by the names. -/
def IsRegistry (calls : List ModuleCall) : Prop := Along handlers.Answers calls

/-- Where the first key is taken it is the name; else a name that is looked up is there, or is none
    that every object has. -/
def Decides (names : List String) : ModuleCall → Prop
  | .getImplementation name =>
    if TakesFirst names name then ∀ first ∈ names.head?, first = name
    else name ∈ names ∨ name ∉ objectPrototypeNames
  | .removeImplementation name => TakesFirst names name → ∀ first ∈ names.head?, first = name

/-- At every call of the run the names decide that no call before it has removed. -/
def AllDecide (calls : List ModuleCall) : Prop :=
  Along (fun before call => Decides (handlers.without before).keys call) calls

/-! ### One call -/

variable {handlers}

theorem ext_rows {handlers' : Handlers Module Config} (h : handlers.rows = handlers'.rows) :
    handlers = handlers' := by
  cases handlers
  cases handlers'
  cases h
  rfl

theorem registered_eq_some {name : String} {handler : ModuleHandler Module Config} :
    handlers.registered name = some handler ↔
      handler ∈ handlers.rows ∧ handler.implementationName = name := by
  constructor
  · intro hfind
    have hname := List.find?_some (show handlers.rows.find? _ = _ from hfind)
    exact ⟨List.mem_of_find?_eq_some hfind, of_decide_eq_true hname⟩
  · rintro ⟨hmem, rfl⟩
    cases hfind : handlers.registered handler.implementationName with
    | none =>
      have hnone := List.find?_eq_none.mp hfind handler hmem
      exact absurd (decide_eq_true rfl) hnone
    | some found =>
      have hname := List.find?_some (show handlers.rows.find? _ = _ from hfind)
      exact congrArg some (List.inj_on_of_nodup_map handlers.nodup (List.mem_of_find?_eq_some hfind)
        hmem (of_decide_eq_true hname))

theorem registered_eq_none {name : String} :
    handlers.registered name = none ↔ name ∉ handlers.keys := by
  rw [registered, List.find?_eq_none, Table.keys, List.mem_map, not_exists]
  refine forall_congr' fun handler => ?_
  rw [not_and, decide_eq_true_iff]

/-- The first key is the name of the first handler. -/
theorem mem_head?_keys {name : String} : name ∈ handlers.keys.head? ↔
    ∃ first, handlers.rows.head? = some first ∧ first.implementationName = name := by
  rw [Table.keys, List.head?_map, Option.mem_def, Option.map_eq_some_iff]

theorem property_eq_iff {name : String} :
    handlers.property name = (handlers.registered name).map .handler ↔
      name ∈ handlers.keys ∨ name ∉ objectPrototypeNames := by
  rw [property]
  cases hfind : handlers.registered name with
  | some handler =>
    obtain ⟨hmem, rfl⟩ := registered_eq_some.mp hfind
    exact iff_of_true rfl (.inl (List.mem_map_of_mem hmem))
  | none =>
    rw [or_iff_right (registered_eq_none.mp hfind)]
    by_cases hproto : name ∈ objectPrototypeNames
    · exact iff_of_false (by rw [if_pos hproto]; exact Option.some_ne_none _) (not_not.mpr hproto)
    · exact iff_of_true (if_neg hproto) hproto

/-- STEP (lookup): the handler under the name is found exactly where the names decide. -/
theorem getImplementation_eq_iff {name : String} :
    handlers.getImplementation name = (handlers.registered name).map .handler ↔
      Decides handlers.keys (.getImplementation name) := by
  rw [getImplementation, Decides]
  by_cases hfirst : TakesFirst handlers.keys name
  · rw [if_pos hfirst, if_pos hfirst]
    constructor
    · intro heq first hmem
      obtain ⟨handler, hhead, rfl⟩ := mem_head?_keys.mp hmem
      rw [hhead] at heq
      obtain ⟨found, hfound, hsame⟩ := Option.map_eq_some_iff.mp heq.symm
      rw [← (HandlerProperty.handler.inj hsame), (registered_eq_some.mp hfound).2]
    · intro hname
      cases hhead : handlers.rows.head? with
      | some handler =>
        have hkey := hname _ (mem_head?_keys.mpr ⟨handler, hhead, rfl⟩)
        exact (congrArg (Option.map _)
          (registered_eq_some.mpr ⟨List.mem_of_mem_head? hhead, hkey⟩)).symm
      | none =>
        have hnone : handlers.registered name = none := by
          rw [registered, List.head?_eq_none_iff.mp hhead, List.find?_nil]
        rw [hnone]
  · rw [if_neg hfirst, if_neg hfirst]
    exact property_eq_iff

theorem rows_delete (name : String) : (handlers.delete name).rows =
    handlers.rows.filter fun handler => handler.implementationName ≠ name := by
  refine List.filter_congr ?_
  intro handler _
  exact (decide_not).symm

/-- STEP (removal): the handler under the name is removed, and no other one, exactly where the names
    decide. -/
theorem rows_removeImplementation_iff {name : String} :
    (handlers.removeImplementation name).rows =
        handlers.rows.filter (fun handler => handler.implementationName ≠ name) ↔
      Decides handlers.keys (.removeImplementation name) := by
  rw [removeImplementation, Decides, ← rows_delete]
  by_cases hfirst : TakesFirst handlers.keys name
  · rw [if_pos hfirst, imp_iff_right hfirst]
    constructor
    · intro heq first hmem
      obtain ⟨handler, hhead, rfl⟩ := mem_head?_keys.mp hmem
      rw [hhead] at heq
      by_contra hother
      -- A handler of another name is gone, but should have been kept.
      have hkept : handler ∈ (handlers.delete name).rows := by
        rw [rows_delete]
        exact List.mem_filter.mpr ⟨List.mem_of_mem_head? hhead, decide_eq_true hother⟩
      rw [← heq, rows_delete, List.mem_filter, rows_delete, List.mem_filter] at hkept
      exact of_decide_eq_true hkept.1.2 rfl
    · intro hname
      cases hhead : handlers.rows.head? with
      | some handler =>
        have hkey := hname _ (mem_head?_keys.mpr ⟨handler, hhead, rfl⟩)
        simp only
        rw [hkey, rows_delete, rows_delete, List.filter_filter]
        simp only [Bool.and_self]
      | none => rfl
  · rw [if_neg hfirst]
    exact iff_of_true rfl fun h => absurd h hfirst

/-! ### A run of calls -/

theorem run_append (handlers : Handlers Module Config) (before : List ModuleCall)
    (call : ModuleCall) : handlers.run (before ++ [call]) = (handlers.run before).call call := by
  rw [run, List.foldl_append]
  rfl

theorem rows_without (handlers : Handlers Module Config) (calls : List ModuleCall) :
    (handlers.without calls).rows = handlers.rows.filter fun handler =>
      .removeImplementation handler.implementationName ∉ calls := by
  refine List.filter_congr ?_
  intro handler _
  exact (decide_not).symm

theorem registered_without (handlers : Handlers Module Config) (calls : List ModuleCall)
    (name : String) : (handlers.without calls).registered name =
      if .removeImplementation name ∈ calls then none else handlers.registered name := by
  by_cases hremoved : .removeImplementation name ∈ calls
  · rw [if_pos hremoved, registered_eq_none, Table.keys, rows_without]
    intro hmem
    obtain ⟨handler, hhandler, rfl⟩ := List.mem_map.mp hmem
    exact of_decide_eq_true (List.mem_filter.mp hhandler).2 hremoved
  · rw [if_neg hremoved]
    ext handler
    rw [registered_eq_some, registered_eq_some, rows_without,
      List.mem_filter, and_assoc]
    refine and_congr_right fun _ => ?_
    constructor
    · exact And.right
    · rintro rfl
      exact ⟨decide_eq_true hremoved, rfl⟩

/-- Where only the named handlers are gone, a call is answered by the names exactly where the names
    that are left decide. -/
theorem answers_iff {before : List ModuleCall} (hrun : handlers.run before = handlers.without before)
    (call : ModuleCall) :
    handlers.Answers before call ↔ Decides (handlers.without before).keys call := by
  cases call with
  | getImplementation name =>
    rw [← getImplementation_eq_iff, registered_without, Answers, hrun]
    by_cases hremoved : .removeImplementation name ∈ before
    · rw [if_pos hremoved, if_pos hremoved]
      rfl
    · rw [if_neg hremoved, if_neg hremoved]
  | removeImplementation name => rw [← rows_removeImplementation_iff, Answers, hrun]

/-- What a call leaves that the names decide. -/
theorem call_without {before : List ModuleCall} {call : ModuleCall}
    (hdecides : Decides (handlers.without before).keys call) :
    (handlers.without before).call call = handlers.without (before ++ [call]) := by
  refine ext_rows ?_
  cases call with
  | getImplementation name =>
    rw [Handlers.call, rows_without, rows_without]
    refine List.filter_congr ?_
    intro handler _
    simp
  | removeImplementation name =>
    rw [Handlers.call, rows_removeImplementation_iff.mpr hdecides, rows_without, rows_without,
      List.filter_filter]
    refine List.filter_congr ?_
    intro handler _
    simp [and_comm]

/-- RUN: only the named handlers are gone, as long as the names decide. -/
theorem run_eq_without {calls : List ModuleCall} (h : handlers.AllDecide calls) :
    handlers.run calls = handlers.without calls := by
  have halways : Always (fun before => handlers.run before = handlers.without before) calls := by
    refine h.always ?_ ?_
    · refine ext_rows ?_
      rw [rows_without]
      exact (List.filter_eq_self.mpr fun handler _ => decide_eq_true List.not_mem_nil).symm
    · intro before call hrun hdecides
      rw [run_append, hrun, call_without hdecides]
  exact halways calls (List.prefix_refl calls)

/-- CODE BUG (module registry): the calls are answered by the names if and only if, at each call, the
    names that no call has removed decide it: where a single one is left, or the name is empty, the
    first one left is the name that is asked for. -/
theorem isRegistry_iff (handlers : Handlers Module Config) (calls : List ModuleCall) :
    handlers.IsRegistry calls ↔ handlers.AllDecide calls := by
  induction calls using List.reverseRecOn with
  | nil => exact iff_of_true along_nil along_nil
  | append_singleton calls call ih =>
    rw [IsRegistry, AllDecide, along_concat, along_concat, ← IsRegistry, ih]
    exact and_congr_right fun hdecides => answers_iff (run_eq_without hdecides) call

/-- Two blockchains. -/
def twoBlockchains : Handlers Unit Unit where
  rows := [⟨"hardhat1:31337", (), ()⟩, ⟨"hardhat2:31337", (), ()⟩]
  nodup := by decide

/-- COUNTEREXAMPLE: one of them is removed twice, and the other is gone as well. -/
theorem not_isRegistry_twoBlockchains : ¬ twoBlockchains.IsRegistry
    [.removeImplementation "hardhat1:31337", .removeImplementation "hardhat1:31337"] := by
  intro hregistry
  have hanswers := hregistry [.removeImplementation "hardhat1:31337"] _ (List.prefix_refl _)
  rw [Answers] at hanswers
  exact absurd hanswers (by decide)

/-! ### Profiles -/

/-- `createProfiles`: the blockchains without a profile are removed, in the order they fail in. -/
def createProfiles (handlers : Handlers Module Config) (failing : List String) :
    Handlers Module Config := handlers.run (failing.map .removeImplementation)

/-- RUN (profiles): the blockchains that failed are removed and the others are left, in whatever
    order they fail. -/
theorem rows_createProfiles {failing : List String} (hnodup : failing.Nodup)
    (hmem : ∀ name ∈ failing, name ∈ handlers.getImplementationNames)
    (hempty : "" ∉ handlers.getImplementationNames) :
    (handlers.createProfiles failing).rows =
      handlers.rows.filter fun handler => handler.implementationName ∉ failing := by
  have hdecides : handlers.AllDecide (failing.map .removeImplementation) := by
    intro before call hbefore
    obtain ⟨names, hprefix, heq⟩ := List.prefix_map_iff.mp hbefore
    obtain ⟨earlier, last, rfl, rfl, hlast⟩ := List.append_eq_map_iff.mp heq
    obtain ⟨name, rfl, rfl⟩ := List.map_eq_singleton_iff.mp hlast
    -- The one that fails has not failed before, so its handler is there.
    have hnot : name ∉ earlier := by
      have hdistinct := hnodup.sublist hprefix.sublist
      exact fun hname => (List.disjoint_of_nodup_append hdistinct) hname List.mem_cons_self
    have hname : name ∈ failing := hprefix.subset (List.mem_append_right _ List.mem_cons_self)
    have hleft : name ∈ (handlers.without (earlier.map .removeImplementation)).keys := by
      obtain ⟨handler, hhandler, rfl⟩ := List.mem_map.mp (hmem name hname)
      rw [Table.keys, rows_without]
      exact List.mem_map_of_mem (List.mem_filter.mpr ⟨hhandler, by simpa using hnot⟩)
    rintro (hone | rfl) first hfirst
    · obtain ⟨only, honly⟩ := List.length_eq_one_iff.mp hone
      rw [honly] at hleft hfirst
      rw [List.mem_singleton.mp hleft, Option.some.inj hfirst]
    · exact absurd (hmem "" hname) hempty
  rw [createProfiles, run_eq_without hdecides, rows_without]
  refine List.filter_congr ?_
  intro handler _
  simp

/-- The manager of the blockchains finds the handler under its name, or fails. -/
theorem getBlockchainImplementation_eq_ok {name : String}
    {found : Option (HandlerProperty Module Config)} :
    handlers.getBlockchainImplementation name = .ok found ↔
      ∃ handler, handlers.registered name = some handler ∧ found = some (.handler handler) := by
  rw [getBlockchainImplementation]
  by_cases hmem : name ∈ handlers.keys
  · rw [if_neg (not_not.mpr hmem), property_eq_iff.mpr (.inl hmem), Except.ok.injEq]
    cases hfind : handlers.registered name with
    | none => exact absurd hmem (registered_eq_none.mp hfind)
    | some handler =>
      constructor
      · rintro rfl
        exact ⟨handler, rfl, rfl⟩
      · rintro ⟨_, ⟨⟩, rfl⟩
        rfl
  · rw [if_pos hmem]
    refine iff_of_false nofun ?_
    rintro ⟨handler, hfind, -⟩
    rw [registered_eq_none.mpr hmem] at hfind
    cases hfind

end Handlers

end OtNode

import Mathlib.Tactic.Tauto
import PropertyGraph.Query.Expr.Names

/-!
# The names that an expression reads

`Expr.freeNames` collects the free names of an expression in a list that is handed on from part to
part.  `Expr.reads` says part by part what they are, and has the same members:

    mem_addNames   what is collected, under some bound names and after some others
    mem_freeNames  the free names are the names read
-/

namespace PropertyGraph.Expr

mutual

/-- The names that an expression reads; those that it binds itself are not read by it. -/
def reads : Expr → List String
  | .literal _ | .parameter _ | .countAll => []
  | .var name => [name]
  | .property e _ | .hasLabels e _ | .unary _ e | .isNull e | .isNotNull e => e.reads
  | .list items | .call _ items _ => listReads items
  | .map entries => entryReads entries
  | .index a b | .binary _ a b => a.reads ++ b.reads
  | .slice e lower upper => e.reads ++ optionReads lower ++ optionReads upper
  | .case operand branches default =>
    optionReads operand ++ branchReads branches ++ optionReads default
  | .comprehension name source filter result =>
    source.reads ++ (optionReads filter ++ optionReads result).filter (· ≠ name)
  | .quantified _ name source predicate => source.reads ++ predicate.reads.filter (· ≠ name)
  | .pattern part => part.names

/-- The names that some expressions read. -/
def listReads : List Expr → List String
  | [] => []
  | e :: rest => e.reads ++ listReads rest

/-- The names that the values of some entries read. -/
def entryReads : List (String × Expr) → List String
  | [] => []
  | (_, e) :: rest => e.reads ++ entryReads rest

/-- The names that conditions and results of some branches read. -/
def branchReads : List (Expr × Expr) → List String
  | [] => []
  | (a, b) :: rest => a.reads ++ b.reads ++ branchReads rest

/-- The names that an expression reads, if there is one. -/
def optionReads : Option Expr → List String
  | none => []
  | some e => e.reads

end

variable {x : String}

theorem mem_noteName {bound found : List String} {name : String} :
    x ∈ noteName bound found name ↔ x ∈ found ∨ x ∉ bound ∧ x = name := by
  unfold noteName
  split
  · next h =>
    rw [Bool.or_eq_true, List.contains_iff_mem, List.contains_iff_mem] at h
    constructor
    · exact Or.inl
    · rintro (hx | ⟨hx, rfl⟩)
      · exact hx
      · exact h.resolve_left hx
  · next h =>
    rw [Bool.or_eq_true, List.contains_iff_mem, List.contains_iff_mem, not_or] at h
    rw [List.mem_append, List.mem_singleton]
    refine or_congr_right (and_iff_right_of_imp ?_).symm
    rintro rfl
    exact h.1

theorem mem_foldl_noteName {bound : List String} (names found : List String) :
    x ∈ names.foldl (noteName bound) found ↔ x ∈ found ∨ x ∉ bound ∧ x ∈ names := by
  induction names generalizing found with
  | nil => simp
  | cons name rest ih =>
    rw [List.foldl_cons, ih, mem_noteName, List.mem_cons]
    tauto

mutual

theorem mem_addNames (bound found : List String) (e : Expr) :
    x ∈ addNames bound found e ↔ x ∈ found ∨ x ∉ bound ∧ x ∈ e.reads := by
  cases e with
  | literal v => simp [addNames, reads]
  | parameter name => simp [addNames, reads]
  | countAll => simp [addNames, reads]
  | var name => simp [addNames, reads, mem_noteName]
  | property e key => rw [addNames, reads, mem_addNames]
  | hasLabels e labels => rw [addNames, reads, mem_addNames]
  | unary op e => rw [addNames, reads, mem_addNames]
  | isNull e => rw [addNames, reads, mem_addNames]
  | isNotNull e => rw [addNames, reads, mem_addNames]
  | list items => rw [addNames, reads, mem_addListNames]
  | call f items d => rw [addNames, reads, mem_addListNames]
  | map entries => rw [addNames, reads, mem_addEntryNames]
  | index a b =>
    rw [addNames, reads, mem_addNames, mem_addNames, List.mem_append]
    tauto
  | binary op a b =>
    rw [addNames, reads, mem_addNames, mem_addNames, List.mem_append]
    tauto
  | slice e lower upper =>
    rw [addNames, reads, mem_addOptionNames, mem_addOptionNames, mem_addNames, List.mem_append,
      List.mem_append]
    tauto
  | case operand branches default =>
    rw [addNames, reads, mem_addOptionNames, mem_addBranchNames, mem_addOptionNames,
      List.mem_append, List.mem_append]
    tauto
  | comprehension name source filter result =>
    rw [addNames, reads, mem_addOptionNames, mem_addOptionNames, mem_addNames, List.mem_append,
      List.mem_filter, List.mem_append, List.mem_cons, decide_eq_true_iff]
    tauto
  | quantified kind name source predicate =>
    rw [addNames, reads, mem_addNames, mem_addNames, List.mem_append, List.mem_filter,
      List.mem_cons, decide_eq_true_iff]
    tauto
  | pattern part => rw [addNames, reads, mem_foldl_noteName]

theorem mem_addListNames (bound found : List String) (es : List Expr) :
    x ∈ addListNames bound found es ↔ x ∈ found ∨ x ∉ bound ∧ x ∈ listReads es := by
  cases es with
  | nil => simp [addListNames, listReads]
  | cons e rest =>
    rw [addListNames, listReads, mem_addListNames, mem_addNames, List.mem_append]
    tauto

theorem mem_addEntryNames (bound found : List String) (entries : List (String × Expr)) :
    x ∈ addEntryNames bound found entries ↔ x ∈ found ∨ x ∉ bound ∧ x ∈ entryReads entries := by
  cases entries with
  | nil => simp [addEntryNames, entryReads]
  | cons entry rest =>
    obtain ⟨key, e⟩ := entry
    rw [addEntryNames, entryReads, mem_addEntryNames, mem_addNames, List.mem_append]
    tauto

theorem mem_addBranchNames (bound found : List String) (branches : List (Expr × Expr)) :
    x ∈ addBranchNames bound found branches ↔
      x ∈ found ∨ x ∉ bound ∧ x ∈ branchReads branches := by
  cases branches with
  | nil => simp [addBranchNames, branchReads]
  | cons branch rest =>
    obtain ⟨a, b⟩ := branch
    rw [addBranchNames, branchReads, mem_addBranchNames, mem_addNames, mem_addNames,
      List.mem_append, List.mem_append]
    tauto

theorem mem_addOptionNames (bound found : List String) (o : Option Expr) :
    x ∈ addOptionNames bound found o ↔ x ∈ found ∨ x ∉ bound ∧ x ∈ optionReads o := by
  cases o with
  | none => simp [addOptionNames, optionReads]
  | some e => rw [addOptionNames, optionReads, mem_addNames]

end

/-- The free names are the names read. -/
theorem mem_freeNames {e : Expr} : x ∈ e.freeNames ↔ x ∈ e.reads := by
  unfold freeNames
  rw [mem_addNames]
  simp

end PropertyGraph.Expr

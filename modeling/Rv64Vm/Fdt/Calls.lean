import Rv64Vm.Fdt.Node
import Rv64Vm.Lib.Runs

/-! # What the calls do

A call, seen from the phandles: which node has come to have which one, and what
`get_phandle` has returned. The nodes stay a forest, so that the way up to the
root ends and every call returns.
-/

namespace Rv64Vm.Fdt

open Lib

/-! ## What a call does -/

namespace Heap

variable (h : Heap)

def phandleAt (n : Nat) : BitVec 32 := h[n]?.elim 0 (·.phandle)

/-- The phandle property of a node. -/
def propAt (n : Nat) : Option Bytes := h[n]?.elim none fun node => getProp phandleName node.props

end Heap

/-- The nodes that can have a phandle: not a root, and with a name. -/
def Heap.Eligible (h : Heap) (n : Nat) : Prop := ∃ node, h[n]? = some node ∧ node.parent ≠ none ∧ node.name ≠ []

theorem Heap.Eligible.attached {h : Heap} {n : Nat} (eligible : h.Eligible n) : h.parent n ≠ none := by
  obtain ⟨node, here, up, -⟩ := eligible
  rw [Heap.parent, here]
  exact up

theorem Heap.Eligible.inside {h : Heap} {n : Nat} (eligible : h.Eligible n) : n < h.length := by
  obtain ⟨node, here, -⟩ := eligible
  exact (List.getElem?_eq_some_iff.mp here).1

/-- The phandle property that a call writes to `n`. -/
def Call.writes (n : Nat) : Call → Option Bytes
  | .addProp node name data => if node = n ∧ name = Heap.phandleName then some data else none
  | _ => none

/-- The effect of a call on phandles. -/
inductive Effect (s next : Build) : Call → Prop
  /-- Other calls attach nodes and write properties. -/
  | other {c : Call} (notAsked : ∀ n, c ≠ .getPhandle n) (phandles : next.heap.phandleAt = s.heap.phandleAt)
      (returned : next.returned = s.returned)
      (attached : ∀ n, s.heap.parent n ≠ none → next.heap.parent n ≠ none)
      (props : ∀ n, next.heap.propAt n = (c.writes n).or (s.heap.propAt n)) : Effect s next c
  /-- A root, or a node without a name. -/
  | refused {n : Nat} (ineligible : ¬ s.heap.Eligible n) (same : next.heap = s.heap)
      (returned : next.returned = s.returned ++ [(n, 0)]) :
      Effect s next (.getPhandle n)
  /-- The node has a legal phandle. -/
  | again {n : Nat} (eligible : s.heap.Eligible n) (legal : Heap.isIllegalPhandle (s.heap.phandleAt n) = false)
      (same : next.heap = s.heap) (returned : next.returned = s.returned ++ [(n, s.heap.phandleAt n)]) :
      Effect s next (.getPhandle n)
  /-- The root gives out the next one. -/
  | fresh {n r : Nat} (eligible : s.heap.Eligible n) (illegal : Heap.isIllegalPhandle (s.heap.phandleAt n) = true)
      (root : s.heap.rootOf n = some r) (top : s.heap.parent r = none)
      (parents : next.heap.parent = s.heap.parent)
      (phandles : next.heap.phandleAt =
        Function.update (Function.update s.heap.phandleAt r (s.heap.phandleAt r + 1)) n (s.heap.phandleAt r + 1))
      (prop : next.heap.propAt n = some (writeBe32 (s.heap.phandleAt r + 1)))
      (others : ∀ m, m ≠ n → next.heap.propAt m = s.heap.propAt m)
      (returned : next.returned = s.returned ++ [(n, s.heap.phandleAt r + 1)]) :
      Effect s next (.getPhandle n)

section Views

variable {h : Heap} {n : Nat} {α : Type} {d : α} {view : Node → α}

theorem elim_modify {f : Node → Node} (kept : ∀ node, view (f node) = view node) (m : Nat) :
    (h.modify n f)[m]?.elim d view = h[m]?.elim d view := by
  rw [List.getElem?_modify]
  cases h[m]? with
  | none => rfl
  | some node => by_cases same : n = m <;> simp [same, kept]

theorem elim_modify_at {f : Node → Node} (m : Nat) :
    (h.modify n f)[m]?.elim d view = if m = n then h[n]?.elim d (fun node => view (f node)) else h[m]?.elim d view := by
  rw [List.getElem?_modify]
  by_cases same : n = m
  · subst same
    cases h[n]? <;> simp
  · rw [if_neg (Ne.symm same)]
    cases h[m]? <;> simp [same]

theorem elim_set {old new : Node} (here : h[n]? = some old) (m : Nat) :
    (h.set n new)[m]?.elim d view = if m = n then view new else h[m]?.elim d view := by
  rw [List.getElem?_set]
  by_cases same : n = m
  · subst same
    have inside := (List.getElem?_eq_some_iff.mp here).1
    simp [inside]
  · rw [if_neg same, if_neg (Ne.symm same)]

theorem elim_append {new : Node} (blank : view new = d) (m : Nat) :
    (h ++ [new])[m]?.elim d view = h[m]?.elim d view := by
  rcases Nat.lt_trichotomy m h.length with lt | rfl | gt
  · rw [List.getElem?_append_left lt]
  · simp [blank]
  · simp [List.getElem?_eq_none (show (h ++ [new]).length ≤ m by simp; omega), List.getElem?_eq_none (Nat.le_of_lt gt)]

end Views

namespace Heap

variable {h : Heap} {n : Nat} {f : Node → Node}

theorem parent_modify (kept : ∀ node, (f node).parent = node.parent) : Heap.parent (h.modify n f) = h.parent :=
  funext (elim_modify kept)

theorem phandleAt_modify (kept : ∀ node, (f node).phandle = node.phandle) :
    Heap.phandleAt (h.modify n f) = h.phandleAt :=
  funext (elim_modify kept)

theorem propAt_modify (kept : ∀ node, (f node).props = node.props) : Heap.propAt (h.modify n f) = h.propAt :=
  funext (elim_modify fun node => congrArg (getProp phandleName) (kept node))

end Heap

theorem Node.addProp_parent (node : Node) (name data : Bytes) : (node.addProp name data).parent = node.parent := by
  unfold Node.addProp
  split <;> rfl

theorem Node.addProp_phandle (node : Node) (name data : Bytes) : (node.addProp name data).phandle = node.phandle := by
  unfold Node.addProp
  split <;> rfl

theorem Node.getProp_addProp (node : Node) (name data : Bytes) :
    getProp Heap.phandleName (node.addProp name data).props =
      if name = Heap.phandleName then some data else getProp Heap.phandleName node.props := by
  unfold Node.addProp
  by_cases same : name = Heap.phandleName
  · subst same
    rw [if_neg (by decide), if_pos rfl]
    exact getProp_setProp ..
  · rw [if_neg same]
    split
    · rfl
    · exact getProp_setProp_of_ne data same node.props

variable {s next : Build} {c : Call}

/-- `get_phandle` returns the legal phandle of an attached node with a name, or a new one, and zero for other nodes. -/
theorem getPhandle_effect {n : Nat} (called : s.call (.getPhandle n) = some next) :
    Effect s next (.getPhandle n) := by
  obtain ⟨⟨h, v⟩, got, rfl⟩ := Option.map_eq_some_iff.mp called
  obtain ⟨node, here, got⟩ := Option.bind_eq_some_iff.mp got
  have phandle : s.heap.phandleAt n = node.phandle := by simp [Heap.phandleAt, here]
  split at got
  case isTrue refused =>
    obtain ⟨rfl, rfl⟩ := Prod.mk.inj (Option.some.inj got)
    refine .refused ?_ rfl rfl
    intro ⟨node', here', up, named⟩
    obtain rfl := Option.some.inj (here.symm.trans here')
    exact refused.elim up named
  case isFalse named =>
    have eligible : s.heap.Eligible n := ⟨node, here, fun same => named (.inl same), fun same => named (.inr same)⟩
    split at got
    case isFalse legal =>
      obtain ⟨rfl, rfl⟩ := Prod.mk.inj (Option.some.inj got)
      exact .again eligible (by rw [phandle]; exact Bool.not_eq_true _ ▸ legal) rfl (by rw [phandle])
    case isTrue illegal =>
      obtain ⟨⟨h', ph⟩, allocated, got⟩ := Option.bind_eq_some_iff.mp got
      obtain ⟨r, rooted, allocated⟩ := Option.bind_eq_some_iff.mp allocated
      obtain ⟨root, there, allocated⟩ := Option.bind_eq_some_iff.mp allocated
      obtain ⟨rfl, rfl⟩ := Prod.mk.inj (Option.some.inj allocated)
      obtain ⟨rfl, rfl⟩ := Prod.mk.inj (Option.some.inj got)
      have counter : s.heap.phandleAt r = root.phandle := by simp [Heap.phandleAt, there]
      have top := iterate_follow rooted
      have apart : n ≠ r := fun same => eligible.attached (same ▸ top)
      have stays : (s.heap.set r { root with phandle := root.phandle + 1 })[n]? = some node := by
        rw [List.getElem?_set_ne (Ne.symm apart), here]
      rw [← phandle] at illegal
      refine .fresh eligible illegal rooted top (funext fun m => ?_) (funext fun m => ?_) ?_ (fun m other => ?_)
        (by rw [counter])
      · simp only [Heap.parent_modify, Node.addPropU32, Node.addProp_parent, implies_true]
        refine (elim_set there m).trans ?_
        split
        case isTrue same =>
          subst same
          simp [Heap.parent, there]
        case isFalse => rfl
      · refine (elim_modify_at m).trans ?_
        rw [stays, elim_set there, counter, Function.update_apply, Function.update_apply]
        exact if_congr Iff.rfl (Node.addProp_phandle ..) rfl
      · refine (elim_modify_at n).trans ?_
        rw [stays, if_pos rfl, counter]
        exact (Node.getProp_addProp ..).trans (if_pos rfl)
      · refine (elim_modify_at m).trans ?_
        rw [if_neg other, elim_set there]
        split
        case isTrue same =>
          subst same
          simp [Heap.propAt, there]
        case isFalse => rfl

theorem call_effect (called : s.call c = some next) : Effect s next c := by
  cases c with
  | getPhandle n => exact getPhandle_effect called
  | create name =>
    obtain rfl := Option.some.inj called
    have parent : Heap.parent (s.heap ++ [{ name := name }]) = s.heap.parent := funext (elim_append rfl)
    have prop : Heap.propAt (s.heap ++ [{ name := name }]) = s.heap.propAt := funext (elim_append rfl)
    exact .other (fun _ => Call.noConfusion) (funext (elim_append rfl)) rfl (fun m up => parent ▸ up)
      fun m => congrFun prop m
  | addChild node child =>
    obtain ⟨h, added, rfl⟩ := Option.map_eq_some_iff.mp called
    obtain ⟨r, -, added⟩ := Option.bind_eq_some_iff.mp added
    split at added
    case isFalse => cases added
    case isTrue allowed =>
      obtain rfl := Option.some.inj added
      refine .other (fun _ => Call.noConfusion) ?_ rfl (fun m up => ?_) fun m => ?_
      · simp only [Heap.phandleAt_modify, implies_true]
      · simp only [Heap.parent_modify, implies_true]
        rw [Heap.parent, elim_modify_at]
        split
        case isTrue same =>
          subst same
          exact absurd allowed.2.2.1 up
        case isFalse => exact up
      · simp only [Heap.propAt_modify, implies_true]
        rfl
  | addProp node name data =>
    simp only [Build.call, Option.ite_none_right_eq_some, Option.some.injEq] at called
    obtain ⟨inside, rfl⟩ := called
    refine .other (fun _ => Call.noConfusion) ?_ rfl (fun m up => ?_) fun m => ?_
    · simp only [Heap.phandleAt_modify, Node.addProp_phandle, implies_true]
    · simp only [Heap.parent_modify, Node.addProp_parent, implies_true]
      exact up
    · refine (elim_modify_at m).trans ?_
      simp only [Node.getProp_addProp, Call.writes, Heap.propAt]
      by_cases same : m = node
      · subst same
        rw [List.getElem?_eq_getElem inside]
        by_cases named : name = Heap.phandleName
        · simp [named]
        · simp [named]
      · simp [same, Ne.symm same]

/-! ## The way to the root -/

/-- A call at most puts a root below a node of another tree. -/
theorem call_parents (called : s.call c = some next) :
    next.heap.parent = s.heap.parent ∨ ∃ n child r, next.heap.parent = Function.update s.heap.parent child (some n) ∧
      n < s.heap.length ∧ s.heap.parent child = none ∧ s.heap.rootOf n = some r ∧ r ≠ child := by
  cases c with
  | create name =>
    obtain rfl := Option.some.inj called
    exact .inl (funext (elim_append rfl))
  | addChild n child =>
    obtain ⟨h, added, rfl⟩ := Option.map_eq_some_iff.mp called
    obtain ⟨r, root, added⟩ := Option.bind_eq_some_iff.mp added
    split at added
    case isFalse => cases added
    case isTrue allowed =>
      obtain ⟨inside, inside', top, other⟩ := allowed
      obtain rfl := Option.some.inj added
      refine .inr ⟨n, child, r, funext fun m => ?_, inside, top, root, other⟩
      simp only [Heap.parent_modify, implies_true]
      rw [Heap.parent, elim_modify_at, Function.update_apply, List.getElem?_eq_getElem inside']
      rfl
  | addProp n name data =>
    simp only [Build.call, Option.ite_none_right_eq_some, Option.some.injEq] at called
    obtain ⟨-, rfl⟩ := called
    exact .inl (Heap.parent_modify fun _ => Node.addProp_parent ..)
  | getPhandle n =>
    cases getPhandle_effect called with
    | other notAsked => exact absurd rfl (notAsked n)
    | refused _ same | again _ _ same => exact .inl (by rw [same])
    | fresh _ _ _ _ parents => exact .inl parents

theorem length_of_call (called : s.call c = some next) : s.heap.length ≤ next.heap.length := by
  cases c with
  | create name =>
    obtain rfl := Option.some.inj called
    simp
  | addChild node child =>
    obtain ⟨h, added, rfl⟩ := Option.map_eq_some_iff.mp called
    obtain ⟨r, -, added⟩ := Option.bind_eq_some_iff.mp added
    split at added
    case isFalse => cases added
    case isTrue =>
      obtain rfl := Option.some.inj added
      simp
  | addProp node name data =>
    simp only [Build.call, Option.ite_none_right_eq_some, Option.some.injEq] at called
    obtain ⟨-, rfl⟩ := called
    simp
  | getPhandle n =>
    obtain ⟨⟨h, v⟩, got, rfl⟩ := Option.map_eq_some_iff.mp called
    obtain ⟨node, -, got⟩ := Option.bind_eq_some_iff.mp got
    split at got
    case isTrue =>
      obtain ⟨rfl, -⟩ := Prod.mk.inj (Option.some.inj got)
      exact Nat.le_refl _
    case isFalse =>
      split at got
      case isFalse =>
        obtain ⟨rfl, -⟩ := Prod.mk.inj (Option.some.inj got)
        exact Nat.le_refl _
      case isTrue =>
        obtain ⟨⟨h', ph⟩, allocated, got⟩ := Option.bind_eq_some_iff.mp got
        obtain ⟨r, -, allocated⟩ := Option.bind_eq_some_iff.mp allocated
        obtain ⟨root, -, allocated⟩ := Option.bind_eq_some_iff.mp allocated
        obtain ⟨rfl, rfl⟩ := Prod.mk.inj (Option.some.inj allocated)
        obtain ⟨rfl, -⟩ := Prod.mk.inj (Option.some.inj got)
        simp

/-- The nodes form trees: every way up ends, at a node of the heap. -/
structure Heap.Forest (h : Heap) : Prop where
  inside : ∀ n p, h.parent n = some p → p < h.length
  ranked : Ranked h.parent

theorem Heap.Forest.rootOf {h : Heap} (forest : h.Forest) {n : Nat} (inside : n < h.length) :
    ∃ r, h.rootOf n = some r ∧ r < h.length := by
  obtain ⟨r, mem, root⟩ := forest.ranked.iterate_follow (s := Finset.range h.length)
    (fun n p up => Finset.mem_range.mpr (forest.inside n p up)) (Finset.mem_range.mpr inside)
  rw [Finset.card_range] at root
  exact ⟨r, root, Finset.mem_range.mp mem⟩

theorem forest_of_call (called : s.call c = some next) (forest : s.heap.Forest) : next.heap.Forest := by
  have grows := length_of_call called
  have kept {m p : Nat} (up : s.heap.parent m = some p) : p < next.heap.length :=
    Nat.lt_of_lt_of_le (forest.inside m p up) grows
  rcases call_parents called with same | ⟨n, child, r, linked, inside, top, root, other⟩
  · exact ⟨fun m p up => kept (same ▸ up), same ▸ forest.ranked⟩
  · refine ⟨fun m p up => ?_, linked ▸ forest.ranked.link fun there => other (there.end_eq top root)⟩
    rw [linked, Function.update_apply] at up
    split at up
    · exact Option.some.inj up ▸ Nat.lt_of_lt_of_le inside grows
    · exact kept up

/-- What the rules of ownership ask of a call. -/
def Call.Allowed (h : Heap) : Call → Prop
  | .create _ => True
  | .addChild node child => node < h.length ∧ child < h.length ∧ h.parent child = none ∧ h.rootOf node ≠ some child
  | .addProp node _ _ | .getPhandle node => node < h.length

/-- Every allowed call of every build returns. -/
theorem call_returns {calls : List Call} {s : Build} (ran : run Build.call {} calls = some s)
    (allowed : c.Allowed s.heap) : ∃ next, s.call c = some next := by
  have empty : ({} : Build).heap.Forest := ⟨nofun, fun _ => 0, nofun⟩
  have forest := run_invariant_of_step (I := fun s => s.heap.Forest) (fun _ _ _ => forest_of_call) empty ran
  cases c with
  | create name => exact ⟨_, rfl⟩
  | addChild node child =>
    obtain ⟨inside, inside', top, other⟩ := allowed
    obtain ⟨r, root, -⟩ := forest.rootOf inside
    have apart : r ≠ child := fun same => other (same ▸ root)
    simp [Build.call, Heap.addChild, root, inside, inside', top, apart]
  | addProp node name data =>
    rw [Build.call, if_pos (show node < s.heap.length from allowed)]
    exact ⟨_, rfl⟩
  | getPhandle node =>
    obtain ⟨r, root, inside⟩ := forest.rootOf allowed
    simp only [Build.call, Heap.getPhandle, Heap.allocateNewPhandle, root, List.getElem?_eq_getElem allowed,
      List.getElem?_eq_getElem inside, Option.bind_eq_bind, Option.bind_some, Option.map_eq_some_iff]
    split
    · exact ⟨_, _, rfl, rfl⟩
    · split
      · exact ⟨_, _, rfl, rfl⟩
      · exact ⟨_, _, rfl, rfl⟩

end Rv64Vm.Fdt

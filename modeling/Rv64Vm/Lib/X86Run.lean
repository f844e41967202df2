import Rv64Vm.Lib.X86

/-! # Reasoning about generated code

`Passes code s t`: the code runs through its end. `Escapes code s l t`: it jumps
to a label `l` that it does not contain. Both compose along concatenation; `Keeps`
is the frame: which registers may have changed.
-/

namespace Rv64Vm.Lib.X86

variable {l : Label} {code first second : List Instr} {d base : Reg} {disp v : Quad}

variable {μ : Type} {E : Env μ}

@[simp] theorem exec_nil (c : Config μ) : exec E [] c = c := rfl

@[simp] theorem exec_cons (i : Instr) (code : List Instr) (c : Config μ) :
    exec E (i :: code) c = exec E code (c.step E i) := rfl

theorem exec_append (first second : List Instr) (c : Config μ) :
    exec E (first ++ second) c = exec E second (exec E first c) := List.foldl_append

theorem step_running (s : State μ) (i : Instr) :
    Config.step E ⟨.running, s⟩ i = (i.exec E s).getD ⟨.stuck, s⟩ := rfl

theorem Config.eq_of_mode {c : Config μ} {mode : Mode} (same : c.mode = mode) : c = ⟨mode, c.state⟩ := by
  subst same
  rfl

@[simp] def Instr.label? : Instr → Option Label
  | .mark l => some l
  | _ => none

/-- The labels placed in the code. -/
def marks (code : List Instr) : List Label := code.filterMap Instr.label?

@[simp] theorem marks_nil : marks [] = [] := rfl

@[simp] theorem marks_append (first second : List Instr) :
    marks (first ++ second) = marks first ++ marks second := List.filterMap_append

@[simp] theorem marks_cons (i : Instr) (code : List Instr) : marks (i :: code) = i.label?.toList ++ marks code := by
  rw [marks, List.filterMap_cons]
  cases i.label? <;> rfl

theorem mem_marks : l ∈ marks code ↔ .mark l ∈ code := by
  simp only [marks, List.mem_filterMap]
  constructor
  · rintro ⟨i, member, labelled⟩
    cases i <;> simp_all [Instr.label?]
  · exact fun member => ⟨_, member, rfl⟩

/-- Items other than the mark of `l` are skipped while `l` is sought. -/
theorem exec_seeking (absent : l ∉ marks code) (s : State μ) : exec E code ⟨.seeking l, s⟩ = ⟨.seeking l, s⟩ := by
  rw [mem_marks] at absent
  induction code with
  | nil => rfl
  | cons i rest ih =>
    have other : i ≠ .mark l := fun same => absent (same ▸ List.mem_cons_self)
    have skipped : Config.step E ⟨.seeking l, s⟩ i = ⟨.seeking l, s⟩ := if_neg other
    rw [exec_cons, skipped]
    exact ih fun member => absent (List.mem_cons_of_mem i member)

section Projections

variable (s : State μ) (r r' : Reg) (v : Quad) (v32 : BitVec 32) (f : Flags) (m : μ)

@[simp] theorem regs_setReg : (s.setReg r v).regs r' = if r' = r then v else s.regs r' :=
  Function.update_apply ..
@[simp] theorem regs_setReg32 : (s.setReg32 r v32).regs r' = if r' = r then v32.setWidth 64 else s.regs r' :=
  Function.update_apply ..
@[simp] theorem regs_setFlags : (s.setFlags f).regs = s.regs := rfl
@[simp] theorem regs_dropFlags : s.dropFlags.regs = s.regs := rfl
@[simp] theorem regs_setMem : (s.setMem m).regs = s.regs := rfl
@[simp] theorem mem_setReg : (s.setReg r v).mem = s.mem := rfl
@[simp] theorem mem_setReg32 : (s.setReg32 r v32).mem = s.mem := rfl
@[simp] theorem mem_setFlags : (s.setFlags f).mem = s.mem := rfl
@[simp] theorem mem_dropFlags : s.dropFlags.mem = s.mem := rfl
@[simp] theorem mem_setMem : (s.setMem m).mem = m := rfl
@[simp] theorem stack_setReg : (s.setReg r v).stack = s.stack := rfl
@[simp] theorem stack_setReg32 : (s.setReg32 r v32).stack = s.stack := rfl
@[simp] theorem stack_setFlags : (s.setFlags f).stack = s.stack := rfl
@[simp] theorem stack_dropFlags : s.dropFlags.stack = s.stack := rfl
@[simp] theorem stack_setMem : (s.setMem m).stack = s.stack := rfl
@[simp] theorem flags_setReg : (s.setReg r v).flags = s.flags := rfl
@[simp] theorem flags_setFlags : (s.setFlags f).flags = some f := rfl
@[simp] theorem flags_setMem : (s.setMem m).flags = s.flags := rfl
@[simp] theorem low_def : s.low r = (s.regs r).setWidth 32 := rfl

end Projections

/-- Only the registers in `changed`, and the flags, may differ. -/
structure Keeps (changed : List Reg) (s t : State μ) : Prop where
  regs : ∀ r, r ∉ changed → t.regs r = s.regs r
  mem : t.mem = s.mem
  stack : t.stack = s.stack

theorem Keeps.refl (changed : List Reg) (s : State μ) : Keeps changed s s := ⟨fun _ _ => rfl, rfl, rfl⟩

variable {s t u : State μ}

theorem Keeps.trans {changed : List Reg} (first : Keeps changed s t)
    (second : Keeps changed t u) : Keeps changed s u :=
  ⟨fun r outside => (second.regs r outside).trans (first.regs r outside),
    second.mem.trans first.mem, second.stack.trans first.stack⟩

theorem Keeps.mono {changed changed' : List Reg} {s t : State μ} (keeps : Keeps changed s t)
    (sub : changed ⊆ changed') : Keeps changed' s t :=
  ⟨fun r outside => keeps.regs r fun inside => outside (sub inside), keeps.mem, keeps.stack⟩

/-- The code runs from `s` through its end. -/
def Passes (E : Env μ) (code : List Instr) (s t : State μ) : Prop :=
  exec E code ⟨.running, s⟩ = ⟨.running, t⟩

/-- The code jumps out to `l`. -/
def Escapes (E : Env μ) (code : List Instr) (s : State μ) (l : Label) (t : State μ) : Prop :=
  exec E code ⟨.running, s⟩ = ⟨.seeking l, t⟩

theorem Passes.nil (s : State μ) : Passes E [] s s := rfl

theorem Passes.append (one : Passes E first s t) (two : Passes E second t u) : Passes E (first ++ second) s u := by
  rw [Passes, exec_append, one, two]

theorem Passes.escapes
    (one : Passes E first s t) (two : Escapes E second t l u) : Escapes E (first ++ second) s l u := by
  rw [Escapes, exec_append, one, two]

theorem Escapes.append {s t : State μ}
    (one : Escapes E first s l t) (absent : l ∉ marks second) :
    Escapes E (first ++ second) s l t := by
  rw [Escapes, exec_append, one, exec_seeking absent]

theorem Passes.cons {i : Instr} {code : List Instr} (one : i.exec E s = run t)
    (rest : Passes E code t u) : Passes E (i :: code) s u := by
  rw [Passes, exec_cons, step_running, one]
  exact rest

/-- The code runs through its end and arrives in a state that meets `Q`. -/
def Wp (E : Env μ) (code : List Instr) (s : State μ) (Q : State μ → Prop) : Prop :=
  ∃ t, Passes E code s t ∧ Q t

section Wp

variable {Q : State μ → Prop} {s : State μ} {code : List Instr}

theorem Wp.nil (here : Q s) : Wp E [] s Q := ⟨s, .nil s, here⟩

/-- An instruction that always succeeds: `one` is `rfl`. -/
theorem Wp.cons {i : Instr} {t : State μ} (one : i.exec E s = run t) (rest : Wp E code t Q) :
    Wp E (i :: code) s Q := by
  obtain ⟨u, passes, holds⟩ := rest
  exact ⟨u, .cons one passes, holds⟩

/-- An instruction that succeeds with what it reads or computes. -/
theorem Wp.bind {α : Type} {i : Instr} {read : Option α} {a : α} {next : α → State μ} (got : read = some a)
    (rest : Wp E code (next a) Q) (step : i.exec E s = read.bind fun a => run (next a)) : Wp E (i :: code) s Q :=
  .cons (step.trans (congrArg (Option.bind · _) got)) rest

theorem Wp.load {bytes : Nat} {ext : Extend} (loaded : E.memory.load s.mem bytes (s.regs base + disp) = some v)
    (rest : Wp E code (s.setReg d (ext.value bytes v)) Q) : Wp E (.load bytes ext d base disp :: code) s Q :=
  .bind loaded rest rfl

theorem Wp.arithMem {op : Arith} (loaded : E.memory.load s.mem 8 (s.regs base + disp) = some v) (rest : Wp E code
      ((s.setReg d (op.value (s.regs d) v)).setFlags (op.flags (s.regs d) v)) Q) :
    Wp E (.arithMem op d base disp :: code) s Q :=
  .bind loaded rest rfl

theorem Wp.cmpMem16 {r : Reg} (loaded : E.memory.load s.mem 2 (s.regs base + disp) = some v)
    (rest : Wp E code (s.setFlags (subFlags (v.setWidth 16) ((s.regs r).setWidth 16))) Q) :
    Wp E (.cmpMem16 base disp r :: code) s Q :=
  .bind loaded rest rfl

theorem Wp.testMem8 {imm : BitVec 8} (loaded : E.memory.load s.mem 1 (s.regs base + disp) = some v)
    (rest : Wp E code (s.setFlags (logicFlags (v.setWidth 8 &&& imm))) Q) :
    Wp E (.testMem8 base disp imm :: code) s Q :=
  .bind loaded rest rfl

theorem Wp.append (one : Wp E first s fun t => Wp E second t Q) : Wp E (first ++ second) s Q := by
  obtain ⟨t, passes, u, passes', holds⟩ := one
  exact ⟨u, passes.append passes', holds⟩

end Wp

/-- A test followed by a conditional jump. -/
theorem exec_jcc {code : List Instr} {s t : State μ} {f : Flags} (passes : Passes E code s t)
    (flags : t.flags = some f) (short : Bool) (cc : Cond) (l : Label) :
    exec E (code ++ [.jcc short cc l]) ⟨.running, s⟩ =
      ⟨if cc.eval f then .seeking l else .running, t⟩ := by
  have jump : (Instr.jcc short cc l).exec E t = t.flags.bind fun f =>
    some ⟨if cc.eval f then .seeking l else .running, t⟩ := rfl
  rw [exec_append, passes, exec_cons, step_running, jump, flags]
  rfl

/-- The code passes, into a state that meets `Q`, if `p` holds, and jumps out to one
    of `labels` if not; either way only the registers in `changed` may differ. -/
structure Guards (E : Env μ) (code : List Instr) (changed : List Reg) (labels : List Label) (p : Prop)
    (s : State μ) (Q : State μ → Prop) : Prop where
  pass : p → Wp E code s fun t => Keeps changed s t ∧ Q t
  miss : ¬p → ∃ l ∈ labels, ∃ u, Escapes E code s l u ∧ Keeps changed s u

section Guards

variable {changed : List Reg} {labels labels' : List Label} {p q : Prop} {s : State μ}
  {Q R : State μ → Prop} {code : List Instr}

theorem Guards.of_wp (wp : Wp E code s fun t => Keeps changed s t ∧ Q t) : Guards E code changed [] True s Q :=
  ⟨fun _ => wp, fun never => absurd trivial never⟩

/-- A test and the jump that leaves when it fails. -/
theorem Guards.jcc {f : Flags} {cc : Cond}
    (test : Wp E code s fun t => t.flags = some f ∧ Keeps changed s t ∧ Q t)
    (taken : cc.eval f = false ↔ p) (l : Label) :
    Guards E (code ++ [.jcc false cc l]) changed [l] p s Q := by
  obtain ⟨t, passes, flags, keeps, holds⟩ := test
  have jumped := exec_jcc passes flags false cc l
  refine ⟨fun yes => ⟨t, ?_, keeps, holds⟩, fun no => ⟨l, List.mem_singleton_self l, t, ?_, keeps⟩⟩
  · rw [taken.mpr yes] at jumped
    exact jumped
  · rw [(Bool.not_eq_false _).mp fun stays => no (taken.mp stays)] at jumped
    exact jumped

theorem Guards.append (one : Guards E first changed labels p s Q)
    (two : ∀ t, Keeps changed s t → Q t → Guards E second changed labels' q t R)
    (absent : ∀ l ∈ labels, l ∉ marks second) : Guards E (first ++ second) changed (labels ++ labels') (p ∧ q) s R := by
  refine ⟨fun both => ?_, fun fails => ?_⟩
  · obtain ⟨t, passes, keeps, holds⟩ := one.pass both.1
    obtain ⟨u, passes', keeps', holds'⟩ := (two t keeps holds).pass both.2
    exact ⟨u, passes.append passes', keeps.trans keeps', holds'⟩
  · by_cases yes : p
    · obtain ⟨t, passes, keeps, holds⟩ := one.pass yes
      obtain ⟨l, member, u, escapes, keeps'⟩ := (two t keeps holds).miss fun yes' => fails ⟨yes, yes'⟩
      exact ⟨l, List.mem_append_right _ member, u, passes.escapes escapes, keeps.trans keeps'⟩
    · obtain ⟨l, member, u, escapes, keeps⟩ := one.miss yes
      exact ⟨l, List.mem_append_left _ member, u, escapes.append (absent l member), keeps⟩

end Guards

end Rv64Vm.Lib.X86

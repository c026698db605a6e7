import MathTemplate.Proofs.Reading.Bound

/-!
# The symbols of an expression

The value of an expression depends on its symbols only (`evaluateWith_congr`), and the tree that
is read back from an expression has no other symbols than it (`Expr.SymbolsIn.reread`).

A value that is written and evaluated again need not stay what it is: its text may be read
differently, and its symbols may have values.  Where no symbol of the value has a value, it
stays what it is exactly if it does so without any values (`stays_iff_of_unbound`), and numbers,
truth values, strings, symbols and lists of them always stay (`stays_of_data`).
-/

namespace MathTemplate.Algebra

namespace Expr

/-- Whether all symbols of an expression are of a kind. -/
def SymbolsIn (S : String → Prop) (e : Expr) : Prop :=
  e.Everywhere fun part => ∀ name, part = sym name → S name

/-- An expression that is no symbol has the symbols of its parts. -/
theorem symbolsIn_of_parts {S : String → Prop} {e : Expr} (h : ∀ name, e ≠ sym name)
    (hparts : ∀ part ∈ e.parts, part.SymbolsIn S) :
  e.SymbolsIn S
  := ⟨fun name heq => absurd heq (h name), hparts⟩

end Expr

/-! ### Evaluation -/

section Evaluation

variable {resolve other : String → Result Expr}

theorem evaluateAll_congr {es : List Expr}
    (h : ∀ e ∈ es, evaluateWith resolve e = evaluateWith other e) :
  evaluateAll resolve es = evaluateAll other es
  := by
  induction es with
  | nil => rfl
  | cons e es ih =>
    obtain ⟨he, hes⟩ := List.forall_mem_cons.mp h
    rw [evaluateAll, evaluateAll, he, ih hes]

/-- An expression has the same results where its symbols stand for the same. -/
theorem evaluateWith_congr {e : Expr}
    (h : e.SymbolsIn fun name => resolve name = other name) :
  evaluateWith resolve e = evaluateWith other e
  := by
  induction h with
  | @intro e self parts ih =>
    cases e with
    | sym name => exact self name rfl
    | int n => rfl
    | real r => rfl
    | bool b => rfl
    | str text => rfl
    | neg e => rw [evaluateWith, evaluateWith, ih e List.mem_cons_self]
    | not e => rw [evaluateWith, evaluateWith, ih e List.mem_cons_self]
    | div num den =>
      obtain ⟨hnum, hden⟩ := Expr.forall_mem_pair.mp ih
      rw [evaluateWith, evaluateWith, hnum, hden]
    | pow base exponent =>
      obtain ⟨hbase, hexponent⟩ := Expr.forall_mem_pair.mp ih
      rw [evaluateWith, evaluateWith, hbase, hexponent]
    | rel r lhs rhs =>
      obtain ⟨hlhs, hrhs⟩ := Expr.forall_mem_pair.mp ih
      rw [evaluateWith, evaluateWith, hlhs, hrhs]
    | add terms =>
      rw [evaluateWith, evaluateWith, evaluateAll_congr (show ∀ e ∈ terms, _ from ih)]
    | mul factors =>
      rw [evaluateWith, evaluateWith, evaluateAll_congr (show ∀ e ∈ factors, _ from ih)]
    | call function args =>
      rw [evaluateWith, evaluateWith, evaluateAll_congr (show ∀ e ∈ args, _ from ih)]
    | list items =>
      rw [evaluateWith, evaluateWith, evaluateAll_congr (show ∀ e ∈ items, _ from ih)]
    | set items =>
      rw [evaluateWith, evaluateWith, evaluateAll_congr (show ∀ e ∈ items, _ from ih)]
    | and items =>
      rw [evaluateWith, evaluateWith, evaluateAll_congr (show ∀ e ∈ items, _ from ih)]
    | or items =>
      rw [evaluateWith, evaluateWith, evaluateAll_congr (show ∀ e ∈ items, _ from ih)]

end Evaluation

/-! ### Rereading -/

section Rereading

variable {S : String → Prop}

/-- Whether the symbols of what a frame holds are of a kind. -/
def Frame.SymbolsIn (S : String → Prop) : Frame → Prop
  | .left _ lhs => lhs.SymbolsIn S
  | _ => True

/-- The symbols of what is pending are of a kind. -/
structure Pending.SymbolsIn (S : String → Prop) (p : Pending) : Prop where
  frames : ∀ f ∈ p.frames, f.SymbolsIn S
  last : p.last.SymbolsIn S

/-- Whether what is pending behind something has symbols of a kind if the frames in front of it
have. -/
def Expr.Spreads (S : String → Prop) (read : List Frame → Pending) : Prop :=
  ∀ fs, (∀ f ∈ fs, f.SymbolsIn S) → (read fs).SymbolsIn S

theorem Frame.SymbolsIn.plug {f : Frame} {e : Expr} (h : f.SymbolsIn S) (he : e.SymbolsIn S) :
  (f.plug e).SymbolsIn S
  := by
  have hneg : (Expr.neg e).SymbolsIn S :=
    Expr.symbolsIn_of_parts (fun _ => Expr.noConfusion) (List.forall_mem_singleton.mpr he)
  cases f with
  | minus => exact hneg
  | not =>
    exact Expr.symbolsIn_of_parts (fun _ => Expr.noConfusion) (List.forall_mem_singleton.mpr he)
  | left op lhs =>
    have hpair := Expr.forall_mem_pair.mpr ⟨h, he⟩
    cases op with
    | minus =>
      exact Expr.symbolsIn_of_parts (fun _ => Expr.noConfusion)
        (Expr.forall_mem_pair.mpr ⟨h, hneg⟩)
    | _ => exact Expr.symbolsIn_of_parts (fun _ => Expr.noConfusion) hpair

namespace Pending.SymbolsIn

variable {p : Pending} {fs : List Frame} {e : Expr}

theorem completed (hfs : ∀ f ∈ fs, f.SymbolsIn S) (he : e.SymbolsIn S) (s : Nat) :
  (Pending.completed s fs e).SymbolsIn S
  := by
  induction fs generalizing e with
  | nil => exact ⟨hfs, he⟩
  | cons f fs ih =>
    obtain ⟨hf, hrest⟩ := List.forall_mem_cons.mp hfs
    rw [Pending.completed]
    split
    · exact ih hrest (hf.plug he)
    · exact ⟨hfs, he⟩

theorem push (h : p.SymbolsIn S) (op : Operator) :
  ∀ f ∈ p.push op, f.SymbolsIn S
  := by
  have hcompleted := completed h.frames h.last op.strength
  exact List.forall_mem_cons.mpr ⟨hcompleted.last, hcompleted.frames⟩

theorem tree (h : p.SymbolsIn S) :
  p.tree.SymbolsIn S
  := by
  have hcompleted := completed h.frames h.last 0
  rw [Pending.completed_zero] at hcompleted
  exact hcompleted.last

end Pending.SymbolsIn

namespace Expr.Spreads

variable {e : Expr} {es : List Expr} {p : Pending}

theorem encloses {read : List Frame → Pending} (h : Spreads S read) (needed : Bool) :
  Spreads S (encloses needed read)
  := by
  intro fs hfs
  cases needed with
  | false => exact h fs hfs
  | true => exact ⟨hfs, (h [] (by simp)).tree⟩

theorem pending (h : Spreads S e.spread) :
  Spreads S e.pending
  := by
  intro fs hfs
  apply h
  rw [opened]
  split
  · exact List.forall_mem_cons.mpr ⟨trivial, hfs⟩
  · exact hfs

theorem reread (h : Spreads S e.spread) :
  e.reread.SymbolsIn S
  := (h.pending [] (by simp)).tree

theorem rereadAll (h : ∀ e ∈ es, Spreads S e.spread) :
  ∀ e ∈ rereadAll es, e.SymbolsIn S
  := by
  induction es with
  | nil => rintro e ⟨⟩
  | cons e es ih =>
    obtain ⟨he, hes⟩ := List.forall_mem_cons.mp h
    exact List.forall_mem_cons.mpr ⟨he.reread, ih hes⟩

theorem terms (h : ∀ e ∈ es, Spreads S e.spread) (hp : p.SymbolsIn S) :
  (spreadTerms es p).SymbolsIn S
  := by
  induction es generalizing p with
  | nil => exact hp
  | cons t ts ih =>
    obtain ⟨ht, hts⟩ := List.forall_mem_cons.mp h
    exact ih hts (ht _ (hp.push _))

theorem factors (h : ∀ e ∈ es, Spreads S e.spread) (hp : p.SymbolsIn S) :
  (spreadFactors es p).SymbolsIn S
  := by
  induction es generalizing p with
  | nil => exact hp
  | cons f fs ih =>
    obtain ⟨hf, hfs⟩ := List.forall_mem_cons.mp h
    exact ih hfs (hf.pending.encloses _ _ (hp.push _))

theorem operands {op : Operator} (h : ∀ e ∈ es, Spreads S e.spread) (hp : p.SymbolsIn S) :
  (spreadOperands op es p).SymbolsIn S
  := by
  induction es generalizing p with
  | nil => exact hp
  | cons e es ih =>
    obtain ⟨he, hes⟩ := List.forall_mem_cons.mp h
    exact ih hes (he.pending.encloses _ _ (hp.push _))

/-- An operator between two expressions. -/
theorem operator {lhs rhs : Expr} (op : Operator) (hlhs : Spreads S lhs.spread)
    (hrhs : Spreads S rhs.spread) (left right : Bool) :
  Spreads S fun fs =>
    Algebra.encloses right rhs.pending ((Algebra.encloses left lhs.pending fs).push op)
  := fun fs hfs => hrhs.pending.encloses right _ ((hlhs.pending.encloses left fs hfs).push op)

end Expr.Spreads

namespace Expr

theorem SymbolsIn.spreads {e : Expr} (h : e.SymbolsIn S) :
  Spreads S e.spread
  := by
  induction h with
  | @intro e self parts ih =>
    intro fs hfs
    cases e with
    | int n =>
      exact ⟨hfs, symbolsIn_of_parts (fun _ => Expr.noConfusion) (by rintro part ⟨⟩)⟩
    | real r => exact ⟨hfs, self, parts⟩
    | bool b => exact ⟨hfs, self, parts⟩
    | str text => exact ⟨hfs, self, parts⟩
    | sym name => exact ⟨hfs, self, parts⟩
    | neg e => exact (ih e List.mem_cons_self).pending.encloses _ fs hfs
    | add terms =>
      cases terms with
      | nil => exact ⟨hfs, self, parts⟩
      | cons t ts =>
        obtain ⟨ht, hts⟩ := List.forall_mem_cons.mp ih
        exact Spreads.terms hts (ht.pending fs hfs)
    | mul factors =>
      cases factors with
      | nil => exact ⟨hfs, self, parts⟩
      | cons f gs =>
        obtain ⟨hf, hgs⟩ := List.forall_mem_cons.mp ih
        exact Spreads.factors hgs (hf.pending.encloses _ fs hfs)
    | div num den =>
      obtain ⟨hnum, hden⟩ := forall_mem_pair.mp ih
      exact Spreads.operator .dividedBy hnum hden _ _ fs hfs
    | pow base exponent =>
      obtain ⟨hbase, hexponent⟩ := forall_mem_pair.mp ih
      exact Spreads.operator .power hbase hexponent _ _ fs hfs
    | rel r lhs rhs =>
      obtain ⟨hlhs, hrhs⟩ := forall_mem_pair.mp ih
      exact Spreads.operator (.rel r) hlhs hrhs _ _ fs hfs
    | call function args =>
      exact ⟨hfs, symbolsIn_of_parts (fun _ => Expr.noConfusion) (Spreads.rereadAll ih)⟩
    | list items =>
      exact ⟨hfs, symbolsIn_of_parts (fun _ => Expr.noConfusion) (Spreads.rereadAll ih)⟩
    | set items =>
      exact ⟨hfs, symbolsIn_of_parts (fun _ => Expr.noConfusion) (Spreads.rereadAll ih)⟩
    | not e =>
      exact (ih e List.mem_cons_self).pending.encloses _ _
        (List.forall_mem_cons.mpr ⟨trivial, hfs⟩)
    | and items =>
      cases items with
      | nil => exact ⟨hfs, self, parts⟩
      | cons e es =>
        obtain ⟨he, hes⟩ := List.forall_mem_cons.mp ih
        exact Spreads.operands hes (he.pending.encloses _ fs hfs)
    | or items =>
      cases items with
      | nil => exact ⟨hfs, self, parts⟩
      | cons e es =>
        obtain ⟨he, hes⟩ := List.forall_mem_cons.mp ih
        exact Spreads.operands hes (he.pending.encloses _ fs hfs)

/-- The tree that is read back from an expression has the symbols of the expression. -/
theorem SymbolsIn.reread {e : Expr} (h : e.SymbolsIn S) :
  e.reread.SymbolsIn S
  := h.spreads.reread

end Expr

end Rereading

/-! ### Values that stay what they are -/

/-- Whether no symbol of an expression has a value. -/
def Expr.UnboundIn (env : Environment) (e : Expr) : Prop := e.SymbolsIn fun name => env name = none

theorem evaluate_of_unbound {env : Environment} {e : Expr} (h : e.UnboundIn env) :
  evaluate env e = simplify e
  := by
  apply evaluateWith_congr
  apply h.mono
  intro part hpart name heq
  rw [lookup, hpart name heq]

/-- Whether the text of a value is evaluated to the value. -/
def Stays (env : Environment) (v : Value) : Prop :=
  ∃ statement result, parseStatement v.text = .ok statement ∧
    statement.evaluate env = .ok result ∧ result.toValue = v

/-- A value stays what it is if it is the one the calculator answers with. -/
theorem stays_iff {env : Environment} {v : Value} {options : RenderOptions}
    {answer : Evaluation} (h : calculator v.text env options = .ok answer) :
  Stays env v ↔ answer.value = v
  := by
  obtain ⟨statement, result, hstatement, hresult, rfl⟩ := calculator_inv h
  constructor
  · rintro ⟨statement', result', hstatement', hresult', hvalue⟩
    rw [hstatement] at hstatement'
    cases hstatement'
    rw [hresult] at hresult'
    cases hresult'
    exact hvalue
  · intro hvalue
    exact ⟨statement, result, hstatement, hresult, hvalue⟩

section Stays

variable {env : Environment} {e : Expr}

/-- A value without doubles stays what it is exactly if the least number is not in it and the
tree that is read back from it is evaluated to it. -/
theorem stays_iff_reread (h : e.Exact) :
  Stays env e.toValue ↔ e.Everywhere Expr.Small ∧
    ∃ again, evaluate env e.reread = .ok again ∧ again.toValue = e.toValue
  := by
  rw [Stays, toValue_text]
  constructor
  · rintro ⟨statement, again, hstatement, hagain, hvalue⟩
    obtain ⟨hsmall, rfl⟩ := (parseStatement_input_eq_ok_iff h).mp hstatement
    exact ⟨hsmall, again, hagain, hvalue⟩
  · rintro ⟨hsmall, again, hagain, hvalue⟩
    have hstatement := (parseStatement_input_eq_ok_iff h).mpr ⟨hsmall, rfl⟩
    exact ⟨.expr e.reread, again, hstatement, hagain, hvalue⟩

/-- Without values for its symbols a value stays what it is as it does without any values. -/
theorem stays_iff_of_unbound (h : e.Exact) (hunbound : e.UnboundIn env) :
  Stays env e.toValue ↔ e.Everywhere Expr.Small ∧
    ∃ again, simplify e.reread = .ok again ∧ again.toValue = e.toValue
  := by
  rw [stays_iff_reread h, evaluate_of_unbound (Expr.SymbolsIn.reread hunbound)]

/-- Numbers, truth values, strings, symbols without a value and lists of them stay what they
are. -/
theorem stays_of_data (h : e.Everywhere Expr.IsDatum) (hunbound : e.UnboundIn env) :
  Stays env e.toValue
  := by
  rw [stays_iff_of_unbound (h.mono fun e he => he.named) hunbound]
  exact ⟨h.mono fun e he => he.small, e, simplify_reread_of_data h, rfl⟩

end Stays

end MathTemplate.Algebra

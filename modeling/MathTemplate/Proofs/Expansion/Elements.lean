import MathTemplate.Proofs.Expansion.FailClosed
import MathTemplate.Proofs.Reading.Blanks
import MathTemplate.Proofs.Reading.Symbols

/-!
# The elements of a loop

A loop binds its variables by evaluating the texts of their elements, one behind the other in
each round (`Unrolls.valueInRound_eq`).  The variables in front of a variable are bound then, and
so are the names the body has bound in earlier rounds, so that a variable need not be bound to
its element: the symbols of an element may have got values since its source was evaluated.

An element none of whose symbols has a value where it is bound is taken over if its text is
read back as what it is, as the texts of numbers, truth values, strings, symbols and lists of
them are.
-/

namespace MathTemplate

open Template (Node Assignment)
open Text (Span trimmed)
open MathTemplate.Algebra (calculator Expr Stays simplify)

/-! ### Values in force -/

namespace Session

variable {evaluator : Evaluator} {s : Session} {key raw expression : String}

theorem valueOf?_push_self {answer : Evaluation}
    (h : (s.push evaluator key raw expression).2.result = .ok answer) :
  (s.push evaluator key raw expression).1.valueOf? key = some answer.value
  := by
  change evaluator expression s.valueOf? s.options = .ok answer at h
  rw [push, h, valueOf?, binding?_record, if_pos ⟨rfl, rfl⟩]
  rfl

theorem valueOf?_push_of_ne {name : String} (h : key ≠ name) :
  (s.push evaluator key raw expression).1.valueOf? name = s.valueOf? name
  := by
  rw [push, valueOf?, binding?_record, if_neg fun hbound => h hbound.1]
  rfl

end Session

namespace Progress

theorem settle_session {p : Progress} {done : Session × Appended} {text : String} {span : Span}
    {next : Progress → Evaluation → Progress} (h : ∀ q answer, (next q answer).session = q.session) :
  (p.settle done text span next).session = done.1
  := by
  unfold settle
  split
  · apply h
  · rfl

section Binding

variable {host : Host} {span : Span} {p : Progress} {name : String}

theorem valueOf?_bindElement_self {v : Value} {answer : Evaluation}
    (h : (p.session.append host.evaluator (some name) v.text).2.result = .ok answer) :
  (p.bindElement host span (name, v)).session.valueOf? name = some answer.value
  := by
  rw [bindElement, settle_session fun _ _ => rfl]
  exact Session.valueOf?_push_self h

theorem valueOf?_bindElement_of_ne {element : String × Value} (h : element.1 ≠ name) :
  (p.bindElement host span element).session.valueOf? name = p.session.valueOf? name
  := by
  rw [bindElement, settle_session fun _ _ => rfl]
  exact Session.valueOf?_push_of_ne h

/-- The bindings of other variables do not matter. -/
theorem valueOf?_bindElements_of_ne {elements : List (String × Value)}
    (h : ∀ element ∈ elements, element.1 ≠ name) :
  (elements.foldl (bindElement host span) p).session.valueOf? name = p.session.valueOf? name
  := by
  induction elements generalizing p with
  | nil => rfl
  | cons element elements ih =>
    obtain ⟨helement, helements⟩ := List.forall_mem_cons.mp h
    rw [List.foldl_cons, ih helements, valueOf?_bindElement_of_ne helement]

end Binding

/-! ### Elements -/

/-- The sources of a loop have the names of its variables. -/
theorem names_of_sources {host : Host} {mode : Mode} {p : Progress} {binders : List Assignment}
    {found : List Source} (h : (p.sources host mode binders).2 = some found) :
  found.map Source.name = binders.map Assignment.name
  := by
  induction binders generalizing p found with
  | nil =>
    cases h
    rfl
  | cons b binders ih =>
    simp only [sources, Option.bind_eq_bind, Option.bind_eq_some_iff, Option.pure_def,
      Option.some.injEq] at h
    obtain ⟨first, hfirst, others, hothers, rfl⟩ := h
    rw [List.map_cons, List.map_cons, (source_snd_eq_some hfirst).1, ih hothers]

theorem elementsAt_append {before after : List Source} {s : Source} {i : Nat} {v : Value}
    (h : s.items[i]? = some v) :
  elementsAt (before ++ s :: after) i =
    elementsAt before i ++ (s.name, v) :: elementsAt after i
  := by
  rw [elementsAt, List.filterMap_append, List.filterMap_cons, h]
  rfl

/-- The elements go by the names of their sources. -/
theorem name_of_mem_elementsAt {found : List Source} {i : Nat} {element : String × Value}
    (h : element ∈ elementsAt found i) :
  ∃ s ∈ found, s.name = element.1
  := by
  rw [elementsAt, List.mem_filterMap] at h
  obtain ⟨s, hs, helement⟩ := h
  obtain ⟨v, -, rfl⟩ := Option.map_eq_some_iff.mp helement
  exact ⟨s, hs, rfl⟩

/-! ### What a variable is bound to -/

section Rounds

variable (host : Host) (mode : Mode) (p : Progress) (binders : List Assignment)
  (children : List Node) (span : Span) (found : List Source)

/-- The progress where the variable at the position `j` is bound in the round `i` of a loop. -/
def variableStart (i j : Nat) : Progress :=
  (elementsAt (found.take j) i).foldl (bindElement host span)
    ((p.sources host mode binders).1.roundStart host span found
      (fun q => nodes host mode q children) i)

/-- The value of a name where the body begins in the round `i` of a loop. -/
def valueInRound (i : Nat) (name : String) : Option Value :=
  ((p.sources host mode binders).1.bodyStart host span found
    (fun q => nodes host mode q children) i).session.valueOf? name

end Rounds

section Unrolls

variable {host : Host} {mode : Mode} {p : Progress} {binders : List Assignment}
  {children : List Node} {span : Span} {found : List Source}

/-- In each round a variable, unless a later one has its name, is bound to what the text of its
element is evaluated to where the variables in front of it are bound. -/
theorem Unrolls.valueInRound_eq (h : Unrolls host mode p binders children span found) {i : Nat}
    (hi : i < rounds found) {before after : List Assignment} {a : Assignment}
    (hbinders : binders = before ++ a :: after) (hlast : ∀ a' ∈ after, a'.name ≠ a.name) :
  ∃ answer items v bound, HasElements host mode (p.sources host mode before).1 a answer items ∧
    items[i]? = some v ∧
    ((p.variableStart host mode binders children span found i before.length).session.append
      host.evaluator (some a.name) v.text).2.result = .ok bound ∧
    p.valueInRound host mode binders children span found i a.name = some bound.value
  := by
  obtain ⟨s, answer, hs, hname, helements⟩ := (sources_snd_eq_some h.found_eq).2 before a after
    hbinders
  have hitems : i < s.items.length := by
    rw [h.aligned s (List.mem_of_getElem? hs)]
    exact hi
  have hv := List.getElem?_eq_getElem hitems
  have hfound : found = found.take before.length ++ s :: found.drop (before.length + 1) := by
    obtain ⟨hlength, rfl⟩ := List.getElem?_eq_some_iff.mp hs
    rw [List.getElem_cons_drop, List.take_append_drop]
  have hat : elementsAt found i = elementsAt (found.take before.length) i ++
      (s.name, s.items[i]) :: elementsAt (found.drop (before.length + 1)) i := by
    rw [← elementsAt_append hv, ← hfound]
  obtain ⟨bound, hbound⟩ := h.bound i hi _ _ _ hat
  have hlater : ∀ element ∈ elementsAt (found.drop (before.length + 1)) i,
      element.1 ≠ s.name := by
    intro element helement
    obtain ⟨s', hs', hname'⟩ := name_of_mem_elementsAt helement
    have hnames : (found.drop (before.length + 1)).map Source.name =
        after.map Assignment.name := by
      rw [List.map_drop, names_of_sources h.found_eq, hbinders, ← List.map_drop]
      simp
    obtain ⟨a', ha', heq⟩ : ∃ a' ∈ after, a'.name = s'.name := by
      rw [← List.mem_map, ← hnames]
      exact List.mem_map_of_mem hs'
    rw [← hname', ← heq, hname]
    exact hlast a' ha'
  refine ⟨answer, s.items, s.items[i], bound, helements, hv, hname ▸ hbound, ?_⟩
  rw [valueInRound, bodyStart, hat, List.foldl_append, List.foldl_cons, ← hname,
    valueOf?_bindElements_of_ne hlater]
  exact valueOf?_bindElement_self hbound

/-- What the calculator answers with is made of values of expressions. -/
theorem item_of_calculator {text : String} {env : Environment} {options : RenderOptions}
    {answer : Evaluation} {items : List Value} {v : Value}
    (h : calculator text env options = .ok answer) (hitems : answer.value.elements? = some items)
    (hv : v ∈ items) :
  ∃ e : Expr, v = e.toValue
  := by
  obtain ⟨statement, result, -, -, rfl⟩ := Algebra.calculator_inv h
  have hmem : ∀ es : List Expr, v ∈ Expr.toValues es → ∃ e : Expr, v = e.toValue := by
    intro es hes
    induction es with
    | nil => cases hes
    | cons e es ih =>
      rcases List.mem_cons.mp hes with rfl | hes
      · exact ⟨e, rfl⟩
      · exact ih hes
  change result.toValue.elements? = some items at hitems
  cases result with
  | list es =>
    cases hitems
    exact hmem es hv
  | set es =>
    cases hitems
    exact hmem es hv
  | _ => cases hitems

end Unrolls

/-! ### Loops with the calculator -/

/-- A loop that is unrolled without an error binds a variable, unless a later one has its name,
in each round to the element its source has at this position exactly if the element stays what
it is when its text is evaluated where the variable is bound.  The element is the value of an
expression.  If this is without doubles and none of its symbols has a value there, the element
stays exactly if the tree that is read back from the expression simplifies to it, and it always
stays if the expression is made of numbers, truth values, strings and such symbols. -/
theorem unrolls_binds_element_iff {host : Host} {mode : Mode} {p : Progress}
    {binders : List Assignment} {children : List Node} {span : Span} {found : List Source}
    (h : Unrolls (host.asking calculator) mode p binders children span found) {i : Nat}
    (hi : i < rounds found) {before after : List Assignment} {a : Assignment}
    (hbinders : binders = before ++ a :: after) (hlast : ∀ a' ∈ after, a'.name ≠ a.name) :
  let bound := p.valueInRound (host.asking calculator) mode binders children span found i a.name
  let env := (p.variableStart (host.asking calculator) mode binders children span found i
    before.length).session.valueOf?
  ∃ (answer : Evaluation) (items : List Value) (v : Value),
    HasElements (host.asking calculator) mode (p.sources (host.asking calculator) mode before).1 a
      answer items ∧
    items[i]? = some v ∧
    (bound = some v ↔ Stays env v) ∧
    (∃ e : Expr, v = e.toValue) ∧
    ∀ e : Expr, v = e.toValue → e.UnboundIn env →
      (e.Exact → (bound = some v ↔ e.Everywhere Expr.Small ∧
        ∃ again, simplify e.reread = .ok again ∧ again.toValue = v)) ∧
      (e.Everywhere Expr.IsDatum → bound = some v)
  := by
  intro bound env
  obtain ⟨answer, items, v, result, helements, hitem, hresult, hbound⟩ :=
    h.valueInRound_eq hi hbinders hlast
  have hstays : bound = some v ↔ Stays env v := by
    have hcalculator : calculator (trimmed v.text) env _ = .ok result := hresult
    rw [Algebra.calculator_trimmed] at hcalculator
    rw [Algebra.stays_iff hcalculator]
    change p.valueInRound _ mode binders children span found i a.name = _ ↔ _
    rw [hbound, Option.some_inj]
  refine ⟨answer, items, v, helements, hitem, hstays, ?_, ?_⟩
  · exact item_of_calculator helements.answered helements.elements (List.mem_of_getElem? hitem)
  · rintro e rfl hunbound
    constructor
    · intro hexact
      rw [hstays, Algebra.stays_iff_of_unbound hexact hunbound]
    · intro hdata
      rw [hstays]
      exact Algebra.stays_of_data hdata hunbound

theorem eq_atom_of_text {v : Value} {text : String} (h : v.text = text)
    (htruth : ∀ b, text ≠ Expr.boolName b) (hnone : v.elements?.isNone = true) :
  v = .atom text
  := by
  cases v with
  | atom s => exact congrArg Value.atom h
  | bool b => exact absurd h.symm (htruth b)
  | list items => cases hnone
  | set items => cases hnone

/-- Variables the second of which goes through the name of the first. -/
def capturing : List Assignment :=
  [⟨"a", "[1,2]", Template.nowhere⟩, ⟨"i", "[a,b]", Template.nowhere⟩]

/-- The progress behind the source of the first of these variables. -/
def behindFirst : Progress :=
  (({ session := {} } : Progress).sources { evaluator := calculator } .student
    [⟨"a", "[1,2]", Template.nowhere⟩]).1

/-- A loop over these variables is unrolled in two rounds, and in the first of them the second
variable is bound to the first element of the first. -/
theorem unrolls_capturing :
  ∃ found, Unrolls { evaluator := calculator } .student { session := {} } capturing []
      Template.nowhere found ∧ rounds found = 2 ∧
    (valueInRound { evaluator := calculator } .student { session := {} } capturing []
      Template.nowhere found 0 "i").map Value.text = some "1"
  := by
  have hquiet : (({ session := {} } : Progress).node { evaluator := calculator } .student
      (.foreach capturing [] Template.nowhere)).errors ≤ 0 := by
    decide +kernel
  have hrun : ((({ session := {} } : Progress).sources { evaluator := calculator } .student
      capturing).2.map fun found => (rounds found,
        (valueInRound { evaluator := calculator } .student { session := {} } capturing []
          Template.nowhere found 0 "i").map Value.text)) = some (2, some "1") := by
    decide +kernel
  obtain ⟨-, found, hunrolls⟩ := flawless_of_quiet hquiet
  rw [hunrolls.found_eq, Option.map_some, Option.some_inj, Prod.mk.injEq] at hrun
  exact ⟨found, hunrolls, hrun⟩

/-- The second element of the second variable, the name `b`, is taken over, as it has no
value. -/
theorem unrolls_binds_element_iff_capturing :
  ∃ found, Unrolls { evaluator := calculator } .student { session := {} } capturing []
      Template.nowhere found ∧ 1 < rounds found ∧
    ∃ (answer : Evaluation) (items : List Value),
      HasElements { evaluator := calculator } .student behindFirst
        ⟨"i", "[a,b]", Template.nowhere⟩ answer items ∧
      items[1]? = some (.atom "b") ∧
      valueInRound { evaluator := calculator } .student { session := {} } capturing []
        Template.nowhere found 1 "i" = some (.atom "b")
  := by
  obtain ⟨found, hunrolls, hrounds, -⟩ := unrolls_capturing
  have hi : 1 < rounds found := by
    rw [hrounds]
    decide
  have hasking : Unrolls (Host.asking { evaluator := calculator } calculator) .student
      { session := {} } capturing [] Template.nowhere found := hunrolls
  have hbinders : capturing = [⟨"a", "[1,2]", Template.nowhere⟩] ++
      ⟨"i", "[a,b]", Template.nowhere⟩ :: [] := rfl
  obtain ⟨answer, items, v, helements, hitem, -, -, hunbound⟩ := unrolls_binds_element_iff hasking
    hi hbinders (by rintro a' ⟨⟩)
  have hanswered : calculator (trimmed "[a,b]") behindFirst.session.valueOf?
      behindFirst.session.options = .ok answer := helements.answered
  have hsecond : ((calculator (trimmed "[a,b]") behindFirst.session.valueOf?
      behindFirst.session.options).toOption.bind fun e => e.value.elements?).bind
        (fun items => items[1]?.map fun v => (v.text, v.elements?.isNone)) =
      some ("b", true) := by
    decide +kernel
  rw [hanswered] at hsecond
  change answer.value.elements?.bind _ = _ at hsecond
  rw [helements.elements, Option.bind_some, hitem, Option.map_some, Option.some_inj,
    Prod.mk.injEq] at hsecond
  have hv : v = (Expr.sym "b").toValue := eq_atom_of_text hsecond.1 (by decide) hsecond.2
  have hfree : ((({ session := {} } : Progress).sources { evaluator := calculator } .student
      capturing).2.map fun found => (variableStart { evaluator := calculator } .student
        { session := {} } capturing [] Template.nowhere found 1 1).session.valueOf? "b"
          |>.isNone) = some true := by
    decide +kernel
  rw [hunrolls.found_eq, Option.map_some, Option.some_inj, Option.isNone_iff_eq_none] at hfree
  have hb : Algebra.IsFreeName "b" := ⟨⟨'b', [], rfl, rfl, rfl⟩, by decide⟩
  have hbound := (hunbound (.sym "b") hv ⟨by rintro name ⟨rfl⟩; exact hfree, by rintro part ⟨⟩⟩).2
    ⟨hb, by rintro part ⟨⟩⟩
  rw [hv] at hitem hbound
  exact ⟨found, hunrolls, hi, answer, items, helements, hitem, hbound⟩

/-- The first element of the second variable, the name `a`, is not taken over: the variable is
bound to the first element of the first variable, which is bound to `a` before. -/
theorem capturing_misses_element :
  ∃ found, Unrolls { evaluator := calculator } .student { session := {} } capturing []
      Template.nowhere found ∧ 0 < rounds found ∧
    ∃ answer items v, HasElements { evaluator := calculator } .student behindFirst
        ⟨"i", "[a,b]", Template.nowhere⟩ answer items ∧
      items[0]? = some v ∧
      valueInRound { evaluator := calculator } .student { session := {} } capturing []
        Template.nowhere found 0 "i" ≠ some v
  := by
  obtain ⟨found, hunrolls, hrounds, hone⟩ := unrolls_capturing
  have hi : 0 < rounds found := by
    rw [hrounds]
    decide
  have hbinders : capturing = [⟨"a", "[1,2]", Template.nowhere⟩] ++
      ⟨"i", "[a,b]", Template.nowhere⟩ :: [] := rfl
  obtain ⟨s, answer, hs, -, helements⟩ := (sources_snd_eq_some hunrolls.found_eq).2 _ _ _ hbinders
  have htexts : ((({ session := {} } : Progress).sources { evaluator := calculator } .student
      capturing).2.map fun found => found[1]?.map fun s => s.items[0]?.map Value.text) =
      some (some (some "a")) := by
    decide +kernel
  rw [hunrolls.found_eq, Option.map_some, show found[1]? = some s from hs, Option.map_some,
    Option.some_inj, Option.some_inj] at htexts
  obtain ⟨v, hv, htext⟩ := Option.map_eq_some_iff.mp htexts
  refine ⟨found, hunrolls, hi, answer, s.items, v, helements, hv, ?_⟩
  intro hsame
  rw [hsame, Option.map_some, Option.some_inj, htext] at hone
  exact absurd hone (by decide)

end Progress

end MathTemplate

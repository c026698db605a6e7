import MathTemplate.Algebra.Calculator
import MathTemplate.Proofs.Reading.Outlines
import MathTemplate.Proofs.Reading.Results

/-!
# Plots that have the same call

The call of a plot is put together from the texts of its request: what is drawn and each
parameter are written as a list in brackets, unless it is a single text.  So two requests have
the same call if the only text of one is the list that the other one is written as, as it is
with `plot([[x,y]])` and `plot([x,y])`.

The commas between the arguments of a call tell them apart (`call_eq_iff`).  So a request is
told by its call and the numbers of its texts, and by its call alone if no argument is a list
with another list as its only element (`plot_request_eq_iff`).
-/

namespace MathTemplate

open MathTemplate.Algebra (Expr IsResult Outlines)
open Text (Balanced IsArgument balanced_joined joined joined_cons joined_injective parenthesized)

/-! ### Groups of texts -/

/-- Texts as a list in brackets, unless there is only one. -/
def grouped : List String → String
  | [s] => s
  | ss => "[" ++ joined "," ss ++ "]"

variable {ss ss' : List String}

theorem grouped_of_length_ne (h : ss.length ≠ 1) :
  grouped ss = "[" ++ joined "," ss ++ "]"
  := by
  unfold grouped
  split
  · exact absurd rfl h
  · rfl

theorem toList_bracketed (s : String) :
  ("[" ++ s ++ "]").toList = '[' :: (s.toList ++ [']'])
  := by
  rw [String.toList_append, String.toList_append]
  rfl

theorem isArgument_grouped (h : ∀ s ∈ ss, IsArgument s) :
  IsArgument (grouped ss)
  := by
  by_cases hlength : ss.length = 1
  · obtain ⟨s, rfl⟩ := List.length_eq_one_iff.mp hlength
    exact List.forall_mem_singleton.mp h
  · rw [grouped_of_length_ne hlength]
    constructor
    · rw [toList_bracketed]
      exact (balanced_joined fun s hs => (h s hs).balanced).bracketed rfl rfl
    · intro hempty
      have hchars := toList_bracketed (joined "," ss)
      rw [hempty] at hchars
      cases hchars

theorem bracketed_injective (h : ∀ s ∈ ss, IsArgument s) (h' : ∀ s ∈ ss', IsArgument s)
    (heq : "[" ++ joined "," ss ++ "]" = "[" ++ joined "," ss' ++ "]") :
  ss = ss'
  := by
  rw [String.append_left_inj, String.append_right_inj] at heq
  exact joined_injective h h' heq

/-- Groups of as many texts are told apart. -/
theorem grouped_injective (h : ∀ s ∈ ss, IsArgument s) (h' : ∀ s ∈ ss', IsArgument s)
    (hlength : ss.length = ss'.length) (heq : grouped ss = grouped ss') :
  ss = ss'
  := by
  by_cases hone : ss.length = 1
  · obtain ⟨s, rfl⟩ := List.length_eq_one_iff.mp hone
    obtain ⟨s', rfl⟩ := List.length_eq_one_iff.mp (hlength ▸ hone)
    exact congrArg (fun s => [s]) heq
  · rw [grouped_of_length_ne hone, grouped_of_length_ne (hlength ▸ hone)] at heq
    exact bracketed_injective h h' heq

/-! ### Requests -/

/-- The texts of a parameter. -/
def PlotParameter.texts (p : PlotParameter) : List String := p.name :: p.values

theorem PlotParameter.input_eq_grouped (p : PlotParameter) :
  p.input = grouped p.texts
  := by
  obtain ⟨name, values⟩ := p
  cases values with
  | nil => rfl
  | cons value values =>
    change "[" ++ name ++ "," ++ joined "," (value :: values) ++ "]" =
      "[" ++ (name ++ "," ++ joined "," (value :: values)) ++ "]"
    rw [String.append_assoc, String.append_assoc, String.append_assoc, String.append_assoc,
      String.append_assoc, String.append_assoc]

namespace PlotRequest

/-- Whether all texts of a request are arguments. -/
structure IsWritten (r : PlotRequest) : Prop where
  expressions : ∀ s ∈ r.expressions, IsArgument s
  parameters : ∀ p ∈ r.parameters, ∀ s ∈ p.texts, IsArgument s

variable {p q : PlotRequest}

theorem drawn_eq_grouped (r : PlotRequest) :
  r.drawn = grouped r.expressions
  := by
  obtain ⟨expressions, parameters⟩ := r
  match expressions with
  | [] => rfl
  | [_] => rfl
  | _ :: _ :: _ => rfl

/-- The arguments of a call are told apart. -/
theorem call_eq_iff (hp : p.IsWritten) (hq : q.IsWritten) :
  p.call = q.call ↔ p.drawn = q.drawn ∧
    p.parameters.map PlotParameter.input = q.parameters.map PlotParameter.input
  := by
  have harguments : ∀ {r : PlotRequest}, r.IsWritten →
      ∀ s ∈ r.drawn :: r.parameters.map PlotParameter.input, IsArgument s := by
    intro r hr
    rw [List.forall_mem_cons]
    constructor
    · rw [drawn_eq_grouped]
      exact isArgument_grouped hr.expressions
    · intro s hs
      obtain ⟨parameter, hparameter, rfl⟩ := List.mem_map.mp hs
      rw [parameter.input_eq_grouped]
      exact isArgument_grouped (hr.parameters parameter hparameter)
  constructor
  · intro h
    rw [call, call, String.append_left_inj, String.append_right_inj] at h
    exact List.cons.inj (joined_injective (harguments hp) (harguments hq) h)
  · rintro ⟨hdrawn, hparameters⟩
    rw [call, call, hdrawn, hparameters]

/-- Lists of parameters with the same texts of as many values are the same. -/
theorem parameters_eq {ps qs : List PlotParameter} (hps : ∀ p ∈ ps, ∀ s ∈ p.texts, IsArgument s)
    (hqs : ∀ q ∈ qs, ∀ s ∈ q.texts, IsArgument s)
    (hinput : ps.map PlotParameter.input = qs.map PlotParameter.input)
    (hlength : ps.map (·.values.length) = qs.map (·.values.length)) :
  ps = qs
  := by
  induction ps generalizing qs with
  | nil => exact (List.map_eq_nil_iff.mp hinput.symm).symm
  | cons p ps ih =>
    cases qs with
    | nil => cases hinput
    | cons q qs =>
      obtain ⟨hp, hps⟩ := List.forall_mem_cons.mp hps
      obtain ⟨hq, hqs⟩ := List.forall_mem_cons.mp hqs
      obtain ⟨hfirst, hrest⟩ := List.cons.inj hinput
      obtain ⟨hvalues, hlengths⟩ := List.cons.inj hlength
      rw [p.input_eq_grouped, q.input_eq_grouped] at hfirst
      have htexts : p.texts = q.texts :=
        grouped_injective hp hq (congrArg (· + 1) hvalues) hfirst
      obtain ⟨hname, hvalues⟩ := List.cons.inj htexts
      have hparameter : p = q := by
        cases p
        cases q
        rw [PlotParameter.mk.injEq]
        exact ⟨hname, hvalues⟩
      rw [hparameter, ih hps hqs hrest hlengths]

/-- A request is told by its call and the numbers of its texts. -/
theorem eq_iff_call (hp : p.IsWritten) (hq : q.IsWritten) :
  p = q ↔ p.call = q.call ∧ p.expressions.length = q.expressions.length ∧
    p.parameters.map (·.values.length) = q.parameters.map (·.values.length)
  := by
  constructor
  · rintro rfl
    exact ⟨rfl, rfl, rfl⟩
  · rintro ⟨hcall, hexpressions, hvalues⟩
    obtain ⟨hdrawn, hparameters⟩ := (call_eq_iff hp hq).mp hcall
    rw [drawn_eq_grouped, drawn_eq_grouped] at hdrawn
    obtain ⟨pe, pp⟩ := p
    obtain ⟨qe, qp⟩ := q
    rw [PlotRequest.mk.injEq]
    exact ⟨grouped_injective hp.expressions hq.expressions hexpressions hdrawn,
      parameters_eq hp.parameters hq.parameters hparameters hvalues⟩

end PlotRequest

/-! ### Texts in brackets -/

namespace Algebra

variable {ss : List String}

/-- What is written with more behind its first operand is no text in brackets. -/
theorem append_ne_bracketed {front back : String} {ts : List Token}
    (hfront : Outlines front ts) (hts : ts ≠ []) (hback : back ≠ "")
    (hss : ∀ s ∈ ss, IsArgument s) :
  front ++ back ≠ "[" ++ joined "," ss ++ "]"
  := by
  intro heq
  have hchars := congrArg String.toList heq
  rw [toList_bracketed, String.toList_append] at hchars
  have hnil := (balanced_joined fun s hs => (hss s hs).balanced).eq_nil_of_bracketed rfl
    hfront.balanced.of_single (by rw [ne_eq, String.toList_eq_nil_iff]; exact hfront.ne_empty hts)
    hchars.symm
  exact hback (String.toList_eq_nil_iff.mp hnil)

theorem IsPlainText.ne_bracketed {s : String} (h : IsPlainText s) (t : String) :
  s ≠ "[" ++ t ++ "]"
  := by
  rintro rfl
  rw [IsPlainText, toList_bracketed] at h
  cases h '[' List.mem_cons_self

namespace Expr

/-- An expression that begins with an operand is written with brackets around it only if nothing
is written behind the operand. -/
theorem operand_ne_bracketed {part : Expr} (h : part.Everywhere Spelled) (needed : Bool)
    {back : String} (hback : back ≠ "") (hss : ∀ s ∈ ss, IsArgument s) :
  parenthesized needed part.input ++ back ≠ "[" ++ joined "," ss ++ "]"
  := append_ne_bracketed ((input_outlines h).parenthesized needed)
    (enclosed_ne_nil (written_ne_nil h)) hback hss

theorem exists_eq_cons_cons {es : List Expr} (h : 2 ≤ es.length) :
  ∃ e f fs, es = e :: f :: fs
  := by
  rcases es with _ | ⟨e, _ | ⟨f, fs⟩⟩
  · cases h
  · simp at h
  · exact ⟨e, f, fs, rfl⟩

theorem append_ne_empty {sign : String} (hsign : sign ≠ "") (t : String) :
  sign ++ t ≠ ""
  := fun hempty => hsign (String.append_eq_empty_iff.mp hempty).1

/-- Only a list is written as texts in brackets. -/
theorem exists_list_of_bracketed {e : Expr} (h : e.Everywhere Spelled)
    (hss : ∀ s ∈ ss, IsArgument s) (htext : e.input = "[" ++ joined "," ss ++ "]") :
  ∃ items, e = .list items
  := by
  have hhead : e.input.toList.head? = some '[' := by
    rw [htext, toList_bracketed]
    rfl
  have hoperand : ∀ part ∈ e.parts, ∀ (needed : Bool) {back : String}, back ≠ "" →
      parenthesized needed part.input ++ back ≠ "[" ++ joined "," ss ++ "]" :=
    fun part hpart needed back hback => operand_ne_bracketed (h.parts part hpart) needed hback hss
  cases e with
  | list items => exact ⟨items, rfl⟩
  | int n => exact absurd htext ((IsPlainText.int n.toInt).ne_bracketed _)
  | real r => exact absurd htext ((write_plain r).1.ne_bracketed _)
  | bool b =>
    exact absurd htext ((IsPlainText.of_mem_keywords (boolName_mem_keywords b)).ne_bracketed _)
  | sym name => exact absurd htext ((IsPlainText.name h.self.1).ne_bracketed _)
  | str text =>
    rw [input, quoted, String.toList_append, String.toList_append] at hhead
    cases hhead
  | neg e =>
    rw [input, String.toList_append] at hhead
    cases hhead
  | set items =>
    rw [input, String.toList_append, String.toList_append] at hhead
    cases hhead
  | not e =>
    rw [input, String.toList_append] at hhead
    cases hhead
  | call function args =>
    rw [input, String.append_assoc, String.append_assoc] at htext
    exact absurd htext (append_ne_bracketed (Outlines.word h.self.1) (List.cons_ne_nil _ _)
      (append_ne_empty (by decide) _) hss)
  | div num den =>
    rw [input, String.append_assoc] at htext
    exact absurd htext (hoperand num (by simp [parts]) _ (append_ne_empty (by decide) _))
  | pow base exponent =>
    rw [input, String.append_assoc] at htext
    exact absurd htext (hoperand base (by simp [parts]) _ (append_ne_empty (by decide) _))
  | rel r lhs rhs =>
    rw [input, String.append_assoc] at htext
    have hsign : r.sign ≠ "" := by cases r <;> decide
    exact absurd htext (hoperand lhs (by simp [parts]) _ (append_ne_empty hsign _))
  | add terms =>
    obtain ⟨t, u, us, rfl⟩ := exists_eq_cons_cons h.self
    rw [input, inputTerms] at htext
    have hu := h.parts u (by simp [parts])
    have hne : u.input ≠ "" := (input_outlines hu).ne_empty (written_ne_nil hu)
    refine absurd htext (hoperand t (by simp [parts]) false ?_)
    intro hempty
    exact hne (String.append_eq_empty_iff.mp (String.append_eq_empty_iff.mp hempty).1).2
  | mul factors =>
    obtain ⟨f, g, gs, rfl⟩ := exists_eq_cons_cons h.self
    rw [input, inputFactors, String.append_assoc] at htext
    exact absurd htext (hoperand f (by simp [parts]) _ (append_ne_empty (by decide) _))
  | and items | or items =>
    obtain ⟨a, b, bs, rfl⟩ := exists_eq_cons_cons h.self
    rw [input, inputOperands, inputOperands, joined_cons, if_neg (List.cons_ne_nil _ _)] at htext
    exact absurd htext (hoperand a (by simp [parts]) _ (append_ne_empty (by decide) _))

/-! ### The requests of results -/

/-- Whether an expression is a list with another list as its only element. -/
def IsNestedList (e : Expr) : Prop := ∃ items, e = .list [.list items]

theorem isArgument_drawn {e : Expr} (h : e.Everywhere Spelled) :
  ∀ s ∈ e.drawn, IsArgument s
  := by
  unfold drawn
  split
  · rename_i items
    intro s hs
    obtain ⟨item, hitem, rfl⟩ := List.mem_map.mp hs
    exact isArgument_input (h.parts item hitem)
  · exact List.forall_mem_singleton.mpr (isArgument_input h)

/-- A parameter has the texts that would be drawn, or the text of an empty list. -/
theorem plotParameter_texts (e : Expr) :
  e.plotParameter.texts = e.drawn ∨ e.drawn = [] ∧ e.plotParameter.texts = [grouped e.drawn]
  := by
  cases e with
  | list items =>
    cases items with
    | nil => exact .inr ⟨rfl, rfl⟩
    | cons name values => exact .inl rfl
  | _ => exact .inl rfl

theorem plotParameter_input (e : Expr) :
  e.plotParameter.input = grouped e.drawn
  := by
  rw [PlotParameter.input_eq_grouped]
  rcases plotParameter_texts e with htexts | ⟨-, htexts⟩
  · rw [htexts]
  · rw [htexts, grouped]

theorem length_plotParameter_values (e : Expr) :
  e.plotParameter.values.length = e.drawn.length - 1
  := by
  have hlength : e.plotParameter.values.length = e.plotParameter.texts.length - 1 := rfl
  rcases plotParameter_texts e with htexts | ⟨hdrawn, htexts⟩
  · rw [hlength, htexts]
  · rw [hlength, htexts, hdrawn]
    rfl

theorem isArgument_plotParameter {e : Expr} (h : e.Everywhere Spelled) :
  ∀ s ∈ e.plotParameter.texts, IsArgument s
  := by
  rcases plotParameter_texts e with htexts | ⟨-, htexts⟩
  · rw [htexts]
    exact isArgument_drawn h
  · rw [htexts]
    exact List.forall_mem_singleton.mpr (isArgument_grouped (isArgument_drawn h))

/-- If what is drawn is a single text, it is the text of no list, unless a list is nested. -/
theorem exists_drawn_of_length {e : Expr} (h : e.Everywhere Spelled) (hnested : ¬ e.IsNestedList)
    (hlength : e.drawn.length = 1) :
  ∃ a : Expr, a.Everywhere Spelled ∧ e.drawn = [a.input] ∧ ∀ items, a ≠ .list items
  := by
  unfold drawn at hlength ⊢
  split at hlength
  · rename_i items
    rw [List.length_map] at hlength
    obtain ⟨a, rfl⟩ := List.length_eq_one_iff.mp hlength
    refine ⟨a, h.parts a List.mem_cons_self, rfl, ?_⟩
    rintro items rfl
    exact hnested ⟨items, rfl⟩
  · rename_i hlist
    exact ⟨e, h, rfl, hlist⟩

/-- Arguments with the same text ask for as many texts, unless a list is nested in one. -/
theorem length_drawn_eq {e f : Expr} (he : e.Everywhere Spelled) (hf : f.Everywhere Spelled)
    (hnested : ¬ e.IsNestedList) (hnested' : ¬ f.IsNestedList)
    (heq : grouped e.drawn = grouped f.drawn) :
  e.drawn.length = f.drawn.length
  := by
  have hother : ∀ {e f : Expr}, e.Everywhere Spelled → f.Everywhere Spelled → ¬ e.IsNestedList →
      grouped e.drawn = grouped f.drawn → e.drawn.length = 1 → f.drawn.length = 1 := by
    intro e f he hf hnested heq hone
    by_contra hmany
    obtain ⟨a, ha, hdrawn, hlist⟩ := exists_drawn_of_length he hnested hone
    rw [hdrawn, grouped_of_length_ne hmany] at heq
    obtain ⟨items, hitems⟩ := exists_list_of_bracketed ha (isArgument_drawn hf) heq
    exact hlist items hitems
  by_cases hone : e.drawn.length = 1
  · rw [hone, hother he hf hnested heq hone]
  · by_cases hone' : f.drawn.length = 1
    · exact absurd (hother hf he hnested' heq.symm hone') hone
    · rw [grouped_of_length_ne hone, grouped_of_length_ne hone'] at heq
      rw [bracketed_injective (isArgument_drawn he) (isArgument_drawn hf) heq]

/-- An expression asks for a plot if it is a call of `plot` with an argument. -/
theorem plotRequest?_eq_some {e : Expr} {r : PlotRequest} (h : e.plotRequest? = some r) :
  ∃ first rest, e = .call "plot" (first :: rest) ∧ r = ⟨first.drawn, rest.map plotParameter⟩
  := by
  unfold plotRequest? at h
  split at h
  · rename_i first rest
    exact ⟨first, rest, rfl, (Option.some.inj h).symm⟩
  · cases h

theorem isWritten_of_spelled {first : Expr} {rest : List Expr}
    (h : (call "plot" (first :: rest)).Everywhere Spelled) :
  PlotRequest.IsWritten ⟨first.drawn, rest.map plotParameter⟩
  := by
  obtain ⟨hfirst, hrest⟩ := List.forall_mem_cons.mp h.parts
  constructor
  · exact isArgument_drawn hfirst
  · intro p hp
    obtain ⟨arg, harg, rfl⟩ := List.mem_map.mp hp
    exact isArgument_plotParameter (hrest arg harg)

/-- Parameters with the same texts have as many values, unless a list is nested in one. -/
theorem map_length_values_eq {as bs : List Expr} (has : ∀ a ∈ as, a.Everywhere Spelled)
    (hbs : ∀ b ∈ bs, b.Everywhere Spelled) (has' : ∀ a ∈ as, ¬ a.IsNestedList)
    (hbs' : ∀ b ∈ bs, ¬ b.IsNestedList)
    (heq : (as.map plotParameter).map PlotParameter.input =
      (bs.map plotParameter).map PlotParameter.input) :
  (as.map plotParameter).map (·.values.length) = (bs.map plotParameter).map (·.values.length)
  := by
  induction as generalizing bs with
  | nil =>
    cases bs with
    | nil => rfl
    | cons b bs => cases heq
  | cons a as ih =>
    cases bs with
    | nil => cases heq
    | cons b bs =>
      obtain ⟨ha, has⟩ := List.forall_mem_cons.mp has
      obtain ⟨hb, hbs⟩ := List.forall_mem_cons.mp hbs
      obtain ⟨ha', has'⟩ := List.forall_mem_cons.mp has'
      obtain ⟨hb', hbs'⟩ := List.forall_mem_cons.mp hbs'
      obtain ⟨hfirst, hrest⟩ := List.cons.inj heq
      rw [plotParameter_input, plotParameter_input] at hfirst
      have hlength := length_drawn_eq ha hb ha' hb' hfirst
      rw [List.map_cons, List.map_cons, List.map_cons, List.map_cons, ih has hbs has' hbs' hrest,
        length_plotParameter_values, length_plotParameter_values, hlength]

/-- The requests of two results are the same exactly if they have the same call and ask for as
many texts; and requests with the same call are the same if no argument of the results is a
list with another list as its only element. -/
theorem plot_request_eq_iff {v w : Expr} (hv : IsResult v) (hw : IsResult w) {p q : PlotRequest}
    (hp : v.plotRequest? = some p) (hq : w.plotRequest? = some q) :
  (p = q ↔ p.call = q.call ∧ p.expressions.length = q.expressions.length ∧
      p.parameters.map (·.values.length) = q.parameters.map (·.values.length)) ∧
    ((∀ arg ∈ v.parts ++ w.parts, ¬ arg.IsNestedList) → p.call = q.call → p = q)
  := by
  obtain ⟨first, rest, rfl, rfl⟩ := plotRequest?_eq_some hp
  obtain ⟨first', rest', rfl, rfl⟩ := plotRequest?_eq_some hq
  have hwritten := isWritten_of_spelled hv.spelled
  have hwritten' := isWritten_of_spelled hw.spelled
  refine ⟨PlotRequest.eq_iff_call hwritten hwritten', fun hnested hcall => ?_⟩
  obtain ⟨hnested, hnested'⟩ := List.forall_mem_append.mp hnested
  obtain ⟨hfirst, hrest⟩ := List.forall_mem_cons.mp hv.spelled.parts
  obtain ⟨hfirst', hrest'⟩ := List.forall_mem_cons.mp hw.spelled.parts
  obtain ⟨hplain, hplains⟩ := List.forall_mem_cons.mp hnested
  obtain ⟨hplain', hplains'⟩ := List.forall_mem_cons.mp hnested'
  obtain ⟨hdrawn, hparameters⟩ := (PlotRequest.call_eq_iff hwritten hwritten').mp hcall
  rw [PlotRequest.drawn_eq_grouped, PlotRequest.drawn_eq_grouped] at hdrawn
  apply (PlotRequest.eq_iff_call hwritten hwritten').mpr
  exact ⟨hcall, length_drawn_eq hfirst hfirst' hplain hplain' hdrawn,
    map_length_values_eq hrest hrest' hplains hplains' hparameters⟩

/-- A curve in a list of one and the curve alone, over one range. -/
theorem plot_request_eq_iff_single_curve :
  ∃ p q,
    (call "plot" [.list [.sym "x"], .list [.sym "x", .int 1, .int 2]]).plotRequest? = some p ∧
    (call "plot" [.sym "x", .list [.sym "x", .int 1, .int 2]]).plotRequest? = some q ∧
    p.call = q.call ∧ p = q
  := by
  have hv : IsResult (call "plot" [.list [.sym "x"], .list [.sym "x", .int 1, .int 2]]) := by
    apply IsResult.of_same "plot([x],[x,1,2])"
    · simp
    · decide +kernel
  have hw : IsResult (call "plot" [.sym "x", .list [.sym "x", .int 1, .int 2]]) := by
    apply IsResult.of_same "plot(x,[x,1,2])"
    · simp
    · decide +kernel
  refine ⟨_, _, rfl, rfl, by decide +kernel,
    (plot_request_eq_iff hv hw rfl rfl).2 ?_ (by decide +kernel)⟩
  rintro arg harg ⟨items, rfl⟩
  simp [parts] at harg

/-- Two curves, and a curve that is given as a list of two expressions. -/
theorem different_plots_with_one_call :
  IsResult (call "plot" [.list [.sym "x", .pow (.sym "x") (.int 2)]]) ∧
    IsResult (call "plot" [.list [.list [.sym "x", .pow (.sym "x") (.int 2)]]]) ∧
    ∃ p q, (call "plot" [.list [.sym "x", .pow (.sym "x") (.int 2)]]).plotRequest? = some p ∧
      (call "plot" [.list [.list [.sym "x", .pow (.sym "x") (.int 2)]]]).plotRequest? = some q ∧
      p.call = q.call ∧ p ≠ q
  := by
  refine ⟨?_, ?_, ⟨_, _, rfl, rfl, by decide +kernel, by decide +kernel⟩⟩
  · apply IsResult.of_same "plot([x,x^2])"
    · simp
    · decide +kernel
  · apply IsResult.of_same "plot([[x,x^2]])"
    · simp
    · decide +kernel

end Expr

end Algebra

end MathTemplate

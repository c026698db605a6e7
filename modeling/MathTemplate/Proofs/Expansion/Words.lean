import MathTemplate.Algebra.Calculator
import MathTemplate.Proofs.Check.Uses
import MathTemplate.Proofs.Expansion.Steps
import MathTemplate.Proofs.Template.Names
import MathTemplate.Proofs.Text.Sort

/-!
# Words are looked for before they are reported

Which words a template uses can be told without expanding it (`Template.usesWords`): the texts of
all its nodes are searched, those of blocks that are never entered included.  An expansion looks
for the words that are forbidden for the call in texts of its own, put together from names and
expressions as it meets them.  It reports none that is not found in the texts of the template
(`Template.usesWords_of_reported`).

That this holds of a whole expansion is shown part by part: no part adds the report of a word
unless the word is used in the texts of its node (`Progress.Reveals`).
-/

namespace MathTemplate

open Template (Node Assignment IsAttributeName)
open Text (Span trimmed)

/-! ### Reports of words -/

theorem ProblemKind.code_injective :
  Function.Injective ProblemKind.code
  := by
  have hcodes : ∀ kind ∈ ProblemKind.all, ∀ kind' ∈ ProblemKind.all,
      kind.code = kind'.code → kind = kind' := by
    decide +kernel
  have hall : ∀ kind : ProblemKind, kind ∈ ProblemKind.all := by
    intro kind
    cases kind <;> decide
  intro kind kind' h
  exact hcodes kind (hall kind) kind' (hall kind') h

/-- Whether a diagnostic reports a word that is forbidden for the call. -/
def Diagnostic.ReportsWord (d : Diagnostic) : Prop :=
  d.code = some ProblemKind.forbiddenWordForCall.code

theorem Diagnostic.reportsWord_iff {d : Diagnostic} (kind : ProblemKind)
    (h : d.code = some kind.code) :
  d.ReportsWord ↔ kind = .forbiddenWordForCall
  := by
  rw [ReportsWord, h, Option.some_inj]
  exact ProblemKind.code_injective.eq_iff

namespace Progress

/-- Whether the reports of words that one progress has and another has not are about words used in
some texts. -/
def Reveals (words texts : List String) (p q : Progress) : Prop :=
  ∀ d ∈ q.diagnostics, d.ReportsWord → d ∈ p.diagnostics ∨ Check.containsAny words texts = true

namespace Reveals

variable {words texts : List String} {p q r : Progress}

theorem of_diagnostics_eq (h : q.diagnostics = p.diagnostics) :
  Reveals words texts p q
  := by
  intro d hd _
  rw [h] at hd
  exact .inl hd

theorem trans (h : Reveals words texts p q) (h' : Reveals words texts q r) :
  Reveals words texts p r
  := by
  intro d hd hreports
  rcases h' d hd hreports with hd | hused
  · exact h d hd hreports
  · exact .inr hused

/-- A report of a word is added only if the word is used. -/
theorem report {d : Diagnostic}
    (h : d.ReportsWord → Check.containsAny words texts = true) :
  Reveals words texts p (p.report d)
  := by
  intro d' hd' hreports
  rcases List.mem_cons.mp hd' with rfl | hd'
  · exact .inr (h hreports)
  · exact .inl hd'

/-- A diagnostic about another kind of problem is added. -/
theorem report_of_ne {d : Diagnostic} (kind : ProblemKind) (hcode : d.code = some kind.code)
    (hkind : kind ≠ .forbiddenWordForCall) :
  Reveals words texts p (p.report d)
  := report fun hreports => absurd ((Diagnostic.reportsWord_iff kind hcode).mp hreports) hkind

theorem foldl {α : Type} {step : Progress → α → Progress} {as : List α}
    (h : ∀ a ∈ as, ∀ q, Reveals words texts q (step q a)) :
  Reveals words texts p (as.foldl step p)
  := by
  induction as generalizing p with
  | nil => exact .of_diagnostics_eq rfl
  | cons a as ih =>
    obtain ⟨ha, has⟩ := List.forall_mem_cons.mp h
    exact (ha p).trans (ih has)

end Reveals

/-! ### The parts of an expansion -/

section Parts

variable {host : Host} {mode : Mode} {p : Progress} {texts : List String}

/-- A rejected expression brings a report of a word only if the word is used in what is checked. -/
theorem checked_reveals {key name : Option String} {raw expression : String} {span : Span}
    {next : Progress → Progress}
    (hused : ∀ word ∈ Check.identifiers (Check.checkedText name (trimmed expression)),
      word ∈ host.forbiddenWords → Check.containsAny host.forbiddenWords texts = true)
    (hnext : Reveals host.forbiddenWords texts p (next p)) :
  Reveals host.forbiddenWords texts p
    (p.checked host mode key name raw expression span next)
  := by
  unfold checked
  split
  · exact hnext
  · rename_i first more hissues
    intro d hd hreports
    rw [reportIssues_eq, List.mem_append, List.mem_reverse, List.mem_map] at hd
    rcases hd with ⟨issue, hissue, rfl⟩ | hd
    · rw [← hissues] at hissue
      have hkind := (Diagnostic.reportsWord_iff issue.kind rfl).mp hreports
      obtain ⟨word, hword, hforbidden⟩ := Check.used_of_issue hissue hkind
      exact .inr (hused word hword hforbidden)
    · exact .inl hd

theorem settle_reveals {done : Session × Appended} {expression : String} {span : Span}
    {next : Progress → Evaluation → Progress}
    (hnext : ∀ q answer, Reveals host.forbiddenWords texts q (next q answer)) :
  Reveals host.forbiddenWords texts p (p.settle done expression span next)
  := by
  unfold settle
  split
  · exact hnext { p with session := done.1 } _
  · rename_i e _
    cases e with
    | malformed message suggestion =>
      exact Reveals.report_of_ne (p := { p with session := done.1 }) .evaluatorSyntax rfl
        (by decide)
    | failed message =>
      exact Reveals.report_of_ne (p := { p with session := done.1 }) .evaluatorRuntime rfl
        (by decide)

theorem plot_reveals (request : PlotRequest) (span : Span) :
  Reveals host.forbiddenWords texts p (p.plot host request span)
  := by
  unfold plot
  split
  · exact .of_diagnostics_eq rfl
  · exact .report_of_ne .plotError rfl (by decide)

theorem math_reveals {delimiter : Delimiter} {raw : String} {span : Span}
    (h : trimmed raw ∈ texts) :
  Reveals host.forbiddenWords texts p (p.math host mode delimiter raw span)
  := by
  apply checked_reveals
  · intro word hword hforbidden
    exact Check.containsAny_iff.mpr
      ⟨_, h, word, Check.mem_identifiers_of_splitAssignment hword, hforbidden⟩
  · apply settle_reveals
    intro q answer
    split
    · apply plot_reveals
    · exact .of_diagnostics_eq rfl

/-- A word that is found in a name with its expression is used in one of them. -/
theorem used_of_checkedText {a : Assignment} (hname : IsAttributeName a.name)
    (hnames : a.name ∈ texts) (hexpressions : a.expression ∈ texts) :
  ∀ word ∈ Check.identifiers
      (Check.checkedText (some a.name) (trimmed (trimmed a.expression))),
    word ∈ host.forbiddenWords → Check.containsAny host.forbiddenWords texts = true
  := by
  intro word hword hforbidden
  rw [Check.identifiers_checkedText hname.ne_quote, Check.identifiers_trimmed,
    Check.identifiers_trimmed, List.mem_append] at hword
  rcases hword with hword | hword
  · exact Check.containsAny_iff.mpr ⟨_, hnames, word, hword, hforbidden⟩
  · exact Check.containsAny_iff.mpr ⟨_, hexpressions, word, hword, hforbidden⟩

theorem bind_reveals {a : Assignment} (hname : IsAttributeName a.name) (hnames : a.name ∈ texts)
    (hexpressions : a.expression ∈ texts) :
  Reveals host.forbiddenWords texts p (p.bind host mode a)
  := by
  apply checked_reveals (used_of_checkedText hname hnames hexpressions)
  apply settle_reveals
  intro q answer
  exact .of_diagnostics_eq rfl

theorem conditional_reveals {test : String} {span : Span} {body : Progress → Progress}
    (h : test ∈ texts) (hbody : ∀ q, Reveals host.forbiddenWords texts q (body q)) :
  Reveals host.forbiddenWords texts p (p.conditional host mode test span body)
  := by
  apply checked_reveals
  · intro word hword hforbidden
    rw [Check.checkedText, Check.identifiers_trimmed, Check.identifiers_trimmed] at hword
    exact Check.containsAny_iff.mpr ⟨_, h, word, hword, hforbidden⟩
  · apply settle_reveals
    intro q answer
    split
    · exact (hbody q).trans (.of_diagnostics_eq rfl)
    · exact .of_diagnostics_eq rfl
    · exact .report_of_ne .nonBooleanTest rfl (by decide)

theorem source_reveals {a : Assignment} (hname : IsAttributeName a.name) (hnames : a.name ∈ texts)
    (hexpressions : a.expression ∈ texts) :
  Reveals host.forbiddenWords texts p (p.source host mode a).1
  := by
  rw [source_fst]
  apply checked_reveals (used_of_checkedText hname hnames hexpressions)
  apply settle_reveals
  intro q answer
  unfold sourceOf
  split
  · exact .of_diagnostics_eq rfl
  · exact .report_of_ne .notASequence rfl (by decide)

theorem sources_reveals {binders : List Assignment}
    (h : ∀ a ∈ binders, IsAttributeName a.name ∧ a.name ∈ texts ∧ a.expression ∈ texts) :
  Reveals host.forbiddenWords texts p (p.sources host mode binders).1
  := by
  induction binders generalizing p with
  | nil => exact .of_diagnostics_eq rfl
  | cons a binders ih =>
    obtain ⟨⟨hname, hnames, hexpressions⟩, hbinders⟩ := List.forall_mem_cons.mp h
    exact (source_reveals hname hnames hexpressions).trans (ih hbinders)

/-- The elements a loop goes through are bound without a check. -/
theorem iterate_reveals {span : Span} {found : List Source} {body : Progress → Progress}
    (hbody : ∀ q, Reveals host.forbiddenWords texts q (body q)) (i : Nat) :
  Reveals host.forbiddenWords texts p (p.iterate host span found body i)
  := by
  unfold iterate
  apply Reveals.trans _ (hbody _)
  apply Reveals.foldl
  intro element _ q
  apply settle_reveals
  intro q answer
  exact .of_diagnostics_eq rfl

theorem unroll_reveals {span : Span} {found : List Source} {body : Progress → Progress}
    (hbody : ∀ q, Reveals host.forbiddenWords texts q (body q)) :
  Reveals host.forbiddenWords texts p (p.unroll host span found body)
  := by
  unfold unroll
  dsimp only
  split
  · exact .report_of_ne .iterationLengthMismatch rfl (by decide)
  · exact (Reveals.foldl fun i _ q => iterate_reveals hbody i).trans (.of_diagnostics_eq rfl)

theorem foreach_reveals {binders : List Assignment} {span : Span} {body : Progress → Progress}
    (h : ∀ a ∈ binders, IsAttributeName a.name ∧ a.name ∈ texts ∧ a.expression ∈ texts)
    (hbody : ∀ q, Reveals host.forbiddenWords texts q (body q)) :
  Reveals host.forbiddenWords texts p (p.foreach host mode binders span body)
  := by
  have hsources : Reveals host.forbiddenWords texts p (p.sources host mode binders).1 :=
    sources_reveals h
  unfold foreach
  split
  · rename_i q found hfound
    rw [hfound] at hsources
    exact hsources.trans (unroll_reveals hbody)
  · rename_i q hnone
    rw [hnone] at hsources
    exact hsources

theorem factSheet_reveals (key : String) (span : Span) :
  Reveals host.forbiddenWords texts p (p.factSheet host key span)
  := by
  unfold factSheet
  split
  · exact .of_diagnostics_eq rfl
  · exact .report_of_ne .unknownFactSheet rfl (by decide)

end Parts

/-! ### Nodes -/

section Nodes

variable {expressions names : List String}

/-- The assignments of a node stand in the texts of the node. -/
theorem assignments_subset {assignments : List Assignment}
    (hnamed : ∀ name ∈ names, IsAttributeName name)
    (hexpressions : assignments.map Assignment.expression ⊆ expressions)
    (hnames : assignments.map Assignment.name ⊆ names) :
  ∀ a ∈ assignments, IsAttributeName a.name ∧ a.name ∈ expressions ++ names ∧
    a.expression ∈ expressions ++ names
  := by
  intro a ha
  have hname : a.name ∈ names := hnames (List.mem_map_of_mem ha)
  have hexpression : a.expression ∈ expressions := hexpressions (List.mem_map_of_mem ha)
  exact ⟨hnamed _ hname, List.mem_append_right _ hname, List.mem_append_left _ hexpression⟩

mutual

/-- The expansion of a node reports words only if they are used in the texts of the node. -/
theorem node_reveals (host : Host) (mode : Mode) (p : Progress) (n : Node)
    (hnamed : ∀ name ∈ names, IsAttributeName name)
    (hexpressions : n.walk Node.expressions ⊆ expressions)
    (hnames : n.walk Node.names ⊆ names) :
  Reveals host.forbiddenWords (expressions ++ names) p (p.node host mode n)
  := by
  cases n with
  | text text span => exact .of_diagnostics_eq rfl
  | math delimiter raw span =>
    exact math_reveals (List.mem_append_left _ (hexpressions (List.mem_singleton_self _)))
  | conditional test children span =>
    obtain ⟨htest, hchildren⟩ := List.append_subset.mp hexpressions
    obtain ⟨-, hbound⟩ := List.append_subset.mp hnames
    apply conditional_reveals (List.mem_append_left _ (htest (List.mem_singleton_self _)))
    intro q
    exact nodes_reveals host mode q children hnamed hchildren hbound
  | define assignments span =>
    have hassignments := assignments_subset hnamed hexpressions hnames
    apply Reveals.foldl
    intro a ha q
    obtain ⟨hname, hbound, hexpression⟩ := hassignments a ha
    exact bind_reveals hname hbound hexpression
  | foreach binders children span =>
    obtain ⟨hsources, hchildren⟩ := List.append_subset.mp hexpressions
    obtain ⟨hbinders, hbound⟩ := List.append_subset.mp hnames
    apply foreach_reveals (assignments_subset hnamed hsources hbinders)
    intro q
    exact nodes_reveals host mode q children hnamed hchildren hbound
  | facts key span => apply factSheet_reveals
  | error marker => exact .of_diagnostics_eq rfl

theorem nodes_reveals (host : Host) (mode : Mode) (p : Progress) (ns : List Node)
    (hnamed : ∀ name ∈ names, IsAttributeName name)
    (hexpressions : Node.walkAll Node.expressions ns ⊆ expressions)
    (hnames : Node.walkAll Node.names ns ⊆ names) :
  Reveals host.forbiddenWords (expressions ++ names) p (p.nodes host mode ns)
  := by
  cases ns with
  | nil => exact .of_diagnostics_eq rfl
  | cons n rest =>
    obtain ⟨hexpressions, hexpressions'⟩ := List.append_subset.mp hexpressions
    obtain ⟨hnames, hnames'⟩ := List.append_subset.mp hnames
    exact (node_reveals host mode p n hnamed hexpressions hnames).trans
      (nodes_reveals host mode _ rest hnamed hexpressions' hnames')

end

end Nodes

end Progress

/-! ### Whole templates -/

namespace Template

/-- The markup of a template is never at fault for a word. -/
theorem not_reportsWord_of_mem_diagnostics {t : Template} {d : Diagnostic}
    (h : d ∈ t.diagnostics) :
  ¬ d.ReportsWord
  := by
  obtain ⟨marker, -, rfl⟩ := List.mem_map.mp h
  rw [Diagnostic.reportsWord_iff marker.fault.kind rfl]
  cases marker.fault <;> rintro ⟨⟩

theorem mem_diagnostics_expand {t : Template} {host : Host} {session : Session} {d : Diagnostic}
    (hfatal : t.fatal = none) :
  d ∈ (t.expand host session).2.diagnostics ↔ d ∈ t.diagnostics ∨
    d ∈ (Progress.nodes host t.mode { session := session } t.nodes).diagnostics
  := by
  rw [expand, hfatal]
  dsimp only [Diagnostic.inSourceOrder]
  rw [(Text.sorted_perm _ _).mem_iff, List.mem_append, (Text.sorted_perm _ _).mem_iff,
    List.mem_reverse]

/-- If the expansion of a template reports a word that is forbidden for the call, then the words
are found in the template without expanding it: whatever the mode, the words, the session, the
evaluator and the other collaborators are. -/
theorem usesWords_of_reported (mode : Mode) (source : String) (host : Host) (session : Session)
    (h : ∃ d ∈ ((compile mode source).expand host session).2.diagnostics,
      d.code = some ProblemKind.forbiddenWordForCall.code) :
  (compile mode source).usesWords host.forbiddenWords = true
  := by
  obtain ⟨d, hd, hreports⟩ := h
  cases hfatal : (compile mode source).fatal with
  | some marker =>
    rw [expand, hfatal] at hd
    exact absurd hreports (not_reportsWord_of_mem_diagnostics hd)
  | none =>
    rcases (mem_diagnostics_expand hfatal).mp hd with hd | hd
    · exact absurd hreports (not_reportsWord_of_mem_diagnostics hd)
    · have hreveals := Progress.nodes_reveals host (compile mode source).mode
        { session := session } (compile mode source).nodes (bindingNames_compile hfatal)
        (List.Subset.refl _) (List.Subset.refl _)
      rcases hreveals d hd hreports with hd | hused
      · cases hd
      · obtain ⟨text, htext, hword⟩ := Check.containsAny_iff.mp hused
        rw [usesWords, Bool.or_eq_true, Check.containsAny_iff, Check.containsAny_iff]
        rcases List.mem_append.mp htext with htext | htext
        · exact .inl ⟨text, htext, hword⟩
        · exact .inr ⟨text, htext, hword⟩

/-- A word in an assignment inside a loop, with another one in a string literal in front of it. -/
theorem usesWords_of_reported_loop :
  let source := "[[foreach size=\"[1,2]\"]]\x7b@y:\"sin\"@\x7d\x7b@z : cos(size)@\x7d[[/foreach]]"
  let host : Host := { evaluator := Algebra.calculator, forbiddenWords := ["cos", "sin"] }
  (∃ d ∈ ((compile .student source).expand host {}).2.diagnostics,
      d.code = some ProblemKind.forbiddenWordForCall.code) ∧
    (compile .student source).usesWords ["cos", "sin"] = true
  := by
  have hreported : ∃ d ∈ ((compile .student
      "[[foreach size=\"[1,2]\"]]\x7b@y:\"sin\"@\x7d\x7b@z : cos(size)@\x7d[[/foreach]]").expand
        { evaluator := Algebra.calculator, forbiddenWords := ["cos", "sin"] } {}).2.diagnostics,
      d.code = some ProblemKind.forbiddenWordForCall.code := by
    decide +kernel
  exact ⟨hreported, usesWords_of_reported _ _ _ _ hreported⟩

end Template

end MathTemplate

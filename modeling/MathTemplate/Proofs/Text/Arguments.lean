import Mathlib.Data.List.Basic
import MathTemplate.Text.Join
import MathTemplate.Text.Quoted

/-!
# Texts of arguments

A text is balanced if its literals are closed and its brackets come in pairs, and it is a
single argument if moreover every comma in it stands in a literal or in brackets.  A reader
that goes through a text from the left keeps count of the open brackets (`Nesting.run`), and
fails where a bracket closes that has not been opened, or where an argument ends.

Single arguments are told apart by the commas between them (`joined_injective`), and a text in
brackets begins with no shorter balanced text (`Balanced.eq_nil_of_bracketed`).
-/

namespace MathTemplate.Text

/-! ### The nesting of brackets -/

/-- Whether a character opens a bracket. -/
def opensBracket (c : Char) : Bool := ['(', '[', '\x7b'].contains c

/-- Whether a character closes a bracket. -/
def closesBracket (c : Char) : Bool := [')', ']', '\x7d'].contains c

/-- Where a reader stands: with respect to the literals, and behind how many open brackets. -/
structure Nesting where
  zone : Zone
  depth : Nat
  deriving DecidableEq, Repr

namespace Nesting

/-- The place behind one more character outside the literals.  If the text is to be a single
argument, there is none behind a comma outside the brackets. -/
def stepOutside (single : Bool) (depth : Nat) (c : Char) : Option Nesting :=
  if opensBracket c then some ⟨.outside, depth + 1⟩
  else if closesBracket c then
    match depth with
    | 0 => none
    | outer + 1 => some ⟨.outside, outer⟩
  else if c = ',' ∧ depth = 0 ∧ single = true then none
  else some ⟨Zone.outside.next c, depth⟩

/-- The place behind one more character. -/
def step (single : Bool) (n : Nesting) (c : Char) : Option Nesting :=
  match n.zone with
  | .outside => stepOutside single n.depth c
  | zone => some ⟨zone.next c, n.depth⟩

/-- The place behind a text. -/
def run (single : Bool) (n : Nesting) (cs : List Char) : Option Nesting :=
  cs.foldlM (step single) n

/-- The place behind one more bracket. -/
def deeper (n : Nesting) : Nesting := ⟨n.zone, n.depth + 1⟩

variable {single : Bool} {n m : Nesting} {c : Char} {cs ds : List Char}

theorem run_cons :
  run single n (c :: cs) = (step single n c).bind fun m => run single m cs
  := rfl

theorem run_append :
  run single n (cs ++ ds) = (run single n cs).bind fun m => run single m ds
  := List.foldlM_append

/-- In a bracket a reader goes on as it does outside it, whether or not commas matter there. -/
theorem stepOutside_deeper {depth : Nat} (h : stepOutside false depth c = some m) :
  stepOutside single (depth + 1) c = some m.deeper
  := by
  unfold stepOutside at h ⊢
  by_cases hopens : opensBracket c = true
  · rw [if_pos hopens] at h ⊢
    cases h
    rfl
  rw [if_neg hopens] at h ⊢
  by_cases hcloses : closesBracket c = true
  · rw [if_pos hcloses] at h ⊢
    cases depth with
    | zero => cases h
    | succ outer =>
      cases h
      rfl
  · rw [if_neg hcloses, if_neg (by simp)] at h ⊢
    cases h
    rfl

theorem step_deeper (h : step false n c = some m) :
  step single n.deeper c = some m.deeper
  := by
  obtain ⟨zone, depth⟩ := n
  cases zone with
  | outside => exact stepOutside_deeper h
  | inside =>
    cases h
    rfl
  | escaped =>
    cases h
    rfl

theorem run_deeper (h : run false n cs = some m) :
  run single n.deeper cs = some m.deeper
  := by
  induction cs generalizing n with
  | nil =>
    cases h
    rfl
  | cons c cs ih =>
    rw [run_cons] at h ⊢
    obtain ⟨next, hstep, hrun⟩ := Option.bind_eq_some_iff.mp h
    rw [step_deeper hstep]
    exact ih hrun

/-- A reader that minds commas goes no further than one that does not. -/
theorem stepOutside_of_single {depth : Nat} (h : stepOutside true depth c = some m) :
  stepOutside single depth c = some m
  := by
  unfold stepOutside at h ⊢
  by_cases hopens : opensBracket c = true
  · rw [if_pos hopens] at h ⊢
    exact h
  rw [if_neg hopens] at h ⊢
  by_cases hcloses : closesBracket c = true
  · rw [if_pos hcloses] at h ⊢
    exact h
  rw [if_neg hcloses] at h ⊢
  split at h
  · cases h
  · rename_i hcomma
    rw [if_neg fun hcut => hcomma ⟨hcut.1, hcut.2.1, rfl⟩]
    exact h

theorem step_of_single (h : step true n c = some m) :
  step single n c = some m
  := by
  obtain ⟨zone, depth⟩ := n
  cases zone with
  | outside => exact stepOutside_of_single h
  | inside => exact h
  | escaped => exact h

theorem run_of_single (h : run true n cs = some m) :
  run single n cs = some m
  := by
  induction cs generalizing n with
  | nil => exact h
  | cons c cs ih =>
    rw [run_cons] at h ⊢
    obtain ⟨next, hstep, hrun⟩ := Option.bind_eq_some_iff.mp h
    rw [step_of_single hstep]
    exact ih hrun

end Nesting

/-! ### Balanced texts -/

/-- Whether the brackets and the literals of a text are closed, and, if it is to be a single
argument, no comma stands outside them. -/
def Balanced (single : Bool) (cs : List Char) : Prop :=
  Nesting.run single ⟨.outside, 0⟩ cs = some ⟨.outside, 0⟩

/-- Whether a character neither ends an argument nor opens or closes anything. -/
def isPlain (c : Char) : Bool :=
  !opensBracket c && !closesBracket c && !(['"', ','].contains c)

namespace Balanced

variable {single : Bool} {c : Char} {cs ds : List Char}

theorem nil :
  Balanced single []
  := rfl

theorem append (h : Balanced single cs) (h' : Balanced single ds) :
  Balanced single (cs ++ ds)
  := by
  rw [Balanced, Nesting.run_append, h]
  exact h'

theorem of_single (h : Balanced true cs) :
  Balanced single cs
  := Nesting.run_of_single h

theorem comma :
  Balanced false [',']
  := rfl

theorem plain (h : ∀ c ∈ cs, isPlain c = true) :
  Balanced single cs
  := by
  induction cs with
  | nil => exact nil
  | cons c cs ih =>
    obtain ⟨hc, hcs⟩ := List.forall_mem_cons.mp h
    have hstep : Nesting.stepOutside single 0 c = some ⟨.outside, 0⟩ := by
      simp only [isPlain, List.contains_cons, List.contains_nil, Bool.or_false, Bool.and_eq_true,
        Bool.not_eq_true', Bool.or_eq_false_iff, beq_eq_false_iff_ne] at hc
      obtain ⟨⟨hopens, hcloses⟩, hquote, hcomma⟩ := hc
      simp [Nesting.stepOutside, hopens, hcloses, hcomma, hquote, Zone.next]
    rw [Balanced, Nesting.run_cons, Nesting.step, hstep]
    exact ih hcs

/-- A text in brackets is a single argument, whatever commas are in it. -/
theorem bracketed (h : Balanced false cs) {before behind : Char}
    (hbefore : opensBracket before = true) (hbehind : closesBracket behind = true) :
  Balanced single (before :: (cs ++ [behind]))
  := by
  have hopens : opensBracket behind = false := by
    simp only [closesBracket, List.contains_eq_mem, decide_eq_true_eq, List.mem_cons,
      List.not_mem_nil, or_false] at hbehind
    rcases hbehind with rfl | rfl | rfl <;> rfl
  have hopen : Nesting.step single ⟨.outside, 0⟩ before = some (Nesting.deeper ⟨.outside, 0⟩) := by
    rw [Nesting.step, Nesting.stepOutside, if_pos hbefore]
    rfl
  have hclose : Nesting.step single (Nesting.deeper ⟨.outside, 0⟩) behind = some ⟨.outside, 0⟩ := by
    rw [Nesting.deeper, Nesting.step, Nesting.stepOutside, if_neg (by simp [hopens]),
      if_pos hbehind]
  rw [Balanced, Nesting.run_cons, hopen, Option.bind_some, Nesting.run_append,
    Nesting.run_deeper h, Option.bind_some, Nesting.run_cons, hclose]
  rfl

/-- What is open inside a literal is closed by its quote. -/
theorem run_protected (single : Bool) (text : List Char) :
  Nesting.run single ⟨.inside, 0⟩
      (text.flatMap (fun c => if c = '\\' ∨ c = '"' then ['\\', c] else [c]) ++ ['"']) =
    some ⟨.outside, 0⟩
  := by
  induction text with
  | nil => rfl
  | cons c text ih =>
    rw [List.flatMap_cons, List.append_assoc, Nesting.run_append]
    split
    · exact ih
    · rename_i hc
      rw [not_or] at hc
      have hstep : Nesting.run single ⟨.inside, 0⟩ [c] = some ⟨.inside, 0⟩ := by
        simp [Nesting.run, Nesting.step, Zone.next, hc.1, hc.2]
      rw [hstep]
      exact ih

end Balanced

/-! ### Taking texts apart -/

variable {cs ds rest rest' : List Char}

/-- Behind a single argument, another one begins with a comma or there is none. -/
theorem Balanced.eq_of_append (h : Balanced true cs) (h' : Balanced true ds)
    (hrest : ∀ c ∈ rest.head?, c = ',') (hrest' : ∀ c ∈ rest'.head?, c = ',')
    (heq : cs ++ rest = ds ++ rest') :
  cs = ds
  := by
  -- An argument with more behind the other one would go on with a comma outside its brackets.
  have hfront : ∀ {cs ds x : List Char}, Balanced true cs → Balanced true ds → ds = cs ++ x →
      (∀ c ∈ x.head?, c = ',') → x = [] := by
    rintro cs ds x hcs hds rfl hx
    cases x with
    | nil => rfl
    | cons c x =>
      obtain rfl := hx c rfl
      rw [Balanced, Nesting.run_append, hcs] at hds
      cases hds
  have hhead : ∀ {x y : List Char}, (∀ c ∈ (x ++ y).head?, c = ',') → ∀ c ∈ x.head?, c = ',' := by
    intro x y hxy c hc
    apply hxy c
    rw [List.head?_append, Option.mem_def.mp hc]
    rfl
  rcases List.append_eq_append_iff.mp heq with ⟨x, hx, hxrest⟩ | ⟨x, hx, hxrest⟩
  · rw [hfront h h' hx (hhead (hxrest ▸ hrest)), List.append_nil] at hx
    exact hx.symm
  · rw [hfront h' h hx (hhead (hxrest ▸ hrest')), List.append_nil] at hx
    exact hx

/-- A text in brackets begins with no shorter balanced text. -/
theorem Balanced.eq_nil_of_bracketed (h : Balanced false cs) {before behind : Char}
    (hbefore : opensBracket before = true) (hfront : Balanced false ds) (hne : ds ≠ [])
    (heq : before :: (cs ++ [behind]) = ds ++ rest) :
  rest = []
  := by
  obtain ⟨c, front, rfl⟩ := List.exists_cons_of_ne_nil hne
  rw [List.cons_append, List.cons.injEq] at heq
  obtain ⟨rfl, heq⟩ := heq
  have hrun : Nesting.run false (Nesting.deeper ⟨.outside, 0⟩) front = some ⟨.outside, 0⟩ := by
    rw [Balanced, Nesting.run_cons, Nesting.step, Nesting.stepOutside, if_pos hbefore] at hfront
    exact hfront
  rcases List.append_eq_append_iff.mp heq with ⟨x, rfl, hx⟩ | ⟨x, rfl, hx⟩
  · cases x with
    | nil =>
      rw [List.append_nil, Nesting.run_deeper h] at hrun
      cases hrun
    | cons c x =>
      rw [List.cons_append, List.cons.injEq] at hx
      exact (List.append_eq_nil_iff.mp hx.2.symm).2
  · -- Within the brackets at least one of them is open.
    rw [Balanced, Nesting.run_append] at h
    obtain ⟨m, hm, -⟩ := Option.bind_eq_some_iff.mp h
    rw [Nesting.run_deeper hm, Option.some.injEq, Nesting.deeper, Nesting.mk.injEq] at hrun
    cases hrun.2

/-! ### Arguments with commas between them -/

/-- Whether a text is a single argument that is not empty. -/
structure IsArgument (s : String) : Prop where
  balanced : Balanced true s.toList
  nonempty : s ≠ ""

theorem joined_cons (sep s : String) (ss : List String) :
  joined sep (s :: ss) = s ++ (if ss = [] then "" else sep ++ joined sep ss)
  := by
  cases ss with
  | nil => simp [joined]
  | cons s' ss => simp [joined, String.append_assoc]

theorem balanced_joined {ss : List String} (h : ∀ s ∈ ss, Balanced true s.toList) :
  Balanced false (joined "," ss).toList
  := by
  induction ss with
  | nil => exact Balanced.nil
  | cons s ss ih =>
    obtain ⟨hs, hss⟩ := List.forall_mem_cons.mp h
    rw [joined_cons, String.toList_append]
    apply hs.of_single.append
    split
    · exact Balanced.nil
    · rw [String.toList_append]
      exact Balanced.comma.append (ih hss)

/-- Arguments are told apart by the commas between them. -/
theorem joined_injective {ss ss' : List String} (h : ∀ s ∈ ss, IsArgument s)
    (h' : ∀ s ∈ ss', IsArgument s) (heq : joined "," ss = joined "," ss') :
  ss = ss'
  := by
  -- What follows the first argument is nothing or begins with a comma.
  have hcomma : ∀ ss : List String,
      ∀ c ∈ (if ss = [] then "" else "," ++ joined "," ss).toList.head?, c = ',' := by
    intro ss c hc
    split at hc
    · cases hc
    · rw [String.toList_append] at hc
      exact (Option.some.inj hc).symm
  have hnil : ∀ {s : String} {ss : List String}, IsArgument s → "" ≠ joined "," (s :: ss) := by
    intro s ss hs hempty
    rw [joined_cons, eq_comm, String.append_eq_empty_iff] at hempty
    exact hs.nonempty hempty.1
  induction ss generalizing ss' with
  | nil =>
    cases ss' with
    | nil => rfl
    | cons s' ss' => exact absurd heq (hnil (h' s' List.mem_cons_self))
  | cons s ss ih =>
    cases ss' with
    | nil => exact absurd heq.symm (hnil (h s List.mem_cons_self))
    | cons s' ss' =>
      obtain ⟨hs, hss⟩ := List.forall_mem_cons.mp h
      obtain ⟨hs', hss'⟩ := List.forall_mem_cons.mp h'
      rw [joined_cons, joined_cons] at heq
      have hlists := congrArg String.toList heq
      rw [String.toList_append, String.toList_append] at hlists
      have hfirst : s = s' := by
        apply String.ext
        exact hs.balanced.eq_of_append hs'.balanced (hcomma ss) (hcomma ss') hlists
      obtain rfl := hfirst
      rw [String.append_right_inj] at heq
      have hempty : ∀ t : String, "" ≠ "," ++ t := by
        intro t ht
        rw [eq_comm, String.append_eq_empty_iff] at ht
        exact absurd ht.1 (by decide)
      split_ifs at heq with hss₀ hss₀' hss₀'
      · rw [hss₀, hss₀']
      · exact absurd heq (hempty _)
      · exact absurd heq.symm (hempty _)
      · rw [ih hss hss' ((String.append_right_inj ",").mp heq)]

end MathTemplate.Text

import MathTemplate.Algebra.Calculator
import MathTemplate.Proofs.Expansion.Steps

/-!
# The keys an expansion leaves behind

Which keys are in the list of a session, and which one is generated next, is decided by the
keys of the entries outside the blocks that have been left and by the counter (`KeyState`).
Each key that is asked for changes this state in a way that depends on the state alone
(`KeyState.ask`), and a block that is left leaves the state it was entered in.  So the state
behind an expansion is that in front of it with the keys of the outermost nodes asked for, one
after another (`Template.expand_keyState`): what stands inside the blocks makes no difference,
and neither does what any expression is evaluated to.
-/

namespace MathTemplate

open Template (Node Assignment)
open Text (Span)

/-! ### The state of the keys -/

/-- What decides about the keys of a session: the keys of its entries outside the blocks that
have been left, the latest first, and the number the search for the next generated key begins
at. -/
structure KeyState where
  visible : List String
  counter : UInt64

namespace KeyState

/-- The number of the next generated key. -/
def number (k : KeyState) : UInt64 :=
  Session.firstFree (fun n => k.visible.contains (Session.generatedKey n.toNat))
    k.visible.length k.counter

/-- The next generated key. -/
def next (k : KeyState) : String := Session.generatedKey k.number.toNat

/-- The counter behind the search for a generated key, if no key is given. -/
def counterBehind (k : KeyState) : Option String → UInt64
  | some _ => k.counter
  | none => k.number + 1

/-- The state once a key, or a generated one, has been asked for and used. -/
def ask (k : KeyState) (key : Option String) : KeyState where
  visible := key.getD k.next :: k.visible
  counter :=
    match Session.generatedNumber? (key.getD k.next) with
    | some n => max (k.counterBehind key) (n + 1)
    | none => k.counterBehind key

end KeyState

namespace Session

/-- The keys of the entries of a log outside the blocks that have been left. -/
def visibleKeys (log : List Binding) : List String := (log.filter fun b => !b.hidden).map Binding.key

/-- The state of the keys of a session. -/
def keyState (s : Session) : KeyState := ⟨visibleKeys s.log, s.counter⟩

theorem visibleKeys_append (log log' : List Binding) :
  visibleKeys (log ++ log') = visibleKeys log ++ visibleKeys log'
  := by
  rw [visibleKeys, List.filter_append, List.map_append]
  rfl

theorem visibleKeys_hide (log : List Binding) :
  visibleKeys (log.map hide) = []
  := by
  rw [visibleKeys, List.map_eq_nil_iff, List.filter_eq_nil_iff]
  intro b hb
  obtain ⟨b', -, rfl⟩ := List.mem_map.mp hb
  simp [hide]

theorem keys_eq_keyState (s : Session) :
  s.keys = Text.distinct s.keyState.visible.reverse
  := by
  rw [keys, bindings, List.filter_reverse, List.map_reverse]
  rfl

theorem isVisible_eq_keyState (s : Session) (key : String) :
  s.isVisible key = s.keyState.visible.contains key
  := by
  rw [Bool.eq_iff_iff, isVisible, List.contains_iff_mem, keyState, visibleKeys, List.any_eq_true]
  simp only [List.mem_map, List.mem_filter, Bool.and_eq_true, beq_iff_eq]
  constructor
  · rintro ⟨b, hb, hhidden, hkey⟩
    exact ⟨b, ⟨hb, hhidden⟩, hkey⟩
  · rintro ⟨b, ⟨hb, hhidden⟩, hkey⟩
    exact ⟨b, hb, hhidden, hkey⟩

theorem isTaken_eq_keyState (s : Session) :
  s.isTaken = fun n => s.keyState.visible.contains (generatedKey n.toNat)
  := by
  funext n
  apply isVisible_eq_keyState

/-- The number of the next generated key is decided by the state of the keys. -/
theorem freshNumber_eq_keyState (s : Session) :
  s.freshNumber = s.keyState.number
  := by
  have hlength : (s.log.countP fun b => !b.hidden) = s.keyState.visible.length := by
    rw [keyState, visibleKeys, List.length_map, List.countP_eq_length_filter]
  rw [freshNumber, isTaken_eq_keyState, hlength]
  rfl

/-- The key that is asked for is decided by the state of the keys. -/
theorem keyOr_eq_keyState (s : Session) (key : Option String) :
  s.keyOr key = key.getD s.keyState.next
  := by
  rw [keyOr, freshNumber_eq_keyState]
  rfl

theorem counterBehind_eq_keyState (s : Session) (key : Option String) :
  s.counterBehind key = s.keyState.counterBehind key
  := by
  cases key with
  | some key => rfl
  | none => rw [counterBehind, freshNumber_eq_keyState, KeyState.counterBehind]

theorem keyState_record (s : Session) (key : Option String) (raw expression : String)
    (outcome : Outcome) :
  ((s.asked key).record ⟨s.keyOr key, raw, expression, outcome, false⟩).keyState =
    s.keyState.ask key
  := by
  rw [keyOr_eq_keyState, asked, counterBehind_eq_keyState]
  rfl

end Session

namespace Progress

/-- The state of the keys behind an expansion is that in front of it with the keys asked for
that are asked for outside the blocks that are left. -/
theorem Runs.keyState_eq {p q : Progress} {keys : List (Option String)} (h : Runs p keys q) :
  q.session.keyState = keys.foldl KeyState.ask p.session.keyState
  := by
  induction h with
  | done => rfl
  | write text => rfl
  | report d => rfl
  | append key raw expression outcome reported told => apply Session.keyState_record
  | trans h h' ih ih' => rw [ih', ih, List.foldl_append]
  | @block p q keys h ih =>
    obtain ⟨added, hadded⟩ := h.log_suffix
    have hlog := log_leave hadded
    change KeyState.mk (Session.visibleKeys (q.session.restore p.session.mark).log) _ = _
    rw [hlog, Session.visibleKeys_append, Session.visibleKeys_hide]
    rfl

end Progress

/-! ### Whole templates -/

namespace Template

theorem expand_of_not_fatal {t : Template} (h : t.fatal = none) (host : Host)
    (session : Session) :
  (t.expand host session).1 = (Progress.nodes host t.mode { session := session } t.nodes).session
  := by
  rw [expand, h]

/-- The keys behind an expansion are those in front of it with the keys of the outermost nodes
asked for. -/
theorem expand_keyState {t : Template} (h : t.fatal = none) (host : Host) (session : Session) :
  (t.expand host session).1.keyState =
    (t.nodes.flatMap Node.ownKeys).foldl KeyState.ask session.keyState
  := by
  rw [expand_of_not_fatal h]
  apply (Progress.nodes_runs host t.mode { session := session } t.nodes).keyState_eq

/-- An expansion adds entries to a session and leaves those that were there as they are. -/
theorem expand_log_suffix (t : Template) (host : Host) (session : Session) :
  ∃ added, (t.expand host session).1.log = added ++ session.log
  := by
  cases h : t.fatal with
  | some fault =>
    use []
    rw [expand, h]
    rfl
  | none =>
    rw [expand_of_not_fatal h]
    apply (Progress.nodes_runs host t.mode { session := session } t.nodes).log_suffix

/-! ### Nodes without what is inside them -/

/-- The place that stands for no particular place. -/
def nowhere : Span := ⟨0, .start, .start⟩

/-- A pair without its place. -/
def Assignment.shell (a : Assignment) : Assignment := { a with span := nowhere }

/-- A node without the nodes inside it and without its place, which depends on their
length. -/
def Node.shell : Node → Node
  | .text content _ => .text content nowhere
  | .math delimiter raw _ => .math delimiter raw nowhere
  | .conditional test _ _ => .conditional test [] nowhere
  | .define assignments _ => .define (assignments.map Assignment.shell) nowhere
  | .foreach binders _ _ => .foreach (binders.map Assignment.shell) [] nowhere
  | .facts key _ => .facts key nowhere
  | .error marker => .error ⟨marker.fault, nowhere⟩

/-- The keys a node asks for do not depend on what is inside it. -/
theorem Node.ownKeys_shell (n : Node) :
  n.shell.ownKeys = n.ownKeys
  := by
  cases n with
  | define assignments span =>
    rw [shell, ownKeys, ownKeys, List.map_map]
    rfl
  | foreach binders children span =>
    rw [shell, ownKeys, ownKeys, List.map_map]
    rfl
  | _ => rfl

theorem flatMap_ownKeys_of_shells {ns ns' : List Node}
    (h : ns.map Node.shell = ns'.map Node.shell) :
  ns.flatMap Node.ownKeys = ns'.flatMap Node.ownKeys
  := by
  have hshells : ∀ ns : List Node, (ns.map Node.shell).flatMap Node.ownKeys =
      ns.flatMap Node.ownKeys := by
    intro ns
    rw [List.flatMap_map]
    congr 1
    funext n
    apply Node.ownKeys_shell
  rw [← hshells ns, h, hshells]

/-- The bindings of a session stay the first ones, as they are, hidden or not. -/
theorem take_bindings_expand (t : Template) (host : Host) (session : Session) :
  (t.expand host session).1.bindings.take session.length = session.bindings
  := by
  obtain ⟨added, hadded⟩ := t.expand_log_suffix host session
  rw [Session.bindings, hadded, List.reverse_append, Session.length, ← List.length_reverse,
    List.take_left]
  rfl

/-- Templates that have the same nodes up to what is inside their blocks leave the same keys
and generate the same key next, whatever is inside the blocks, whatever evaluates their
expressions, and whatever their modes and hosts accept.  Neither changes a binding that was
there before. -/
theorem expand_keys_of_same_shells {t t' : Template} (ht : t.fatal = none)
    (ht' : t'.fatal = none) (h : t.nodes.map Node.shell = t'.nodes.map Node.shell)
    (host host' : Host) (session : Session) :
  (t.expand host session).1.keys = (t'.expand host' session).1.keys ∧
    (t.expand host session).1.counter = (t'.expand host' session).1.counter ∧
    (t.expand host session).1.keyOr none = (t'.expand host' session).1.keyOr none ∧
    (t.expand host session).1.bindings.take session.length = session.bindings ∧
    (t'.expand host' session).1.bindings.take session.length = session.bindings
  := by
  have hstate : (t.expand host session).1.keyState = (t'.expand host' session).1.keyState := by
    rw [expand_keyState ht, expand_keyState ht', flatMap_ownKeys_of_shells h]
  refine ⟨?_, congrArg KeyState.counter hstate, ?_, take_bindings_expand t host session,
    take_bindings_expand t' host' session⟩
  · rw [Session.keys_eq_keyState, hstate, Session.keys_eq_keyState]
  · rw [Session.keyOr_eq_keyState, hstate, Session.keyOr_eq_keyState]

/-- A condition with a text inside it. -/
def conditionOverText : Template :=
  { source := ""
    mode := .teacher
    nodes := [.conditional "true" [.text "a" nowhere] ⟨0, .start, .start⟩]
    markers := []
    fatal := none }

/-- The same condition with a loop inside it that binds a key of the generated form. -/
def conditionOverLoop : Template :=
  { source := ""
    mode := .student
    nodes := [.conditional "true" [.foreach [⟨"autogen7", "[1,2]", nowhere⟩]
      [.math .value "autogen7+y" nowhere] nowhere] ⟨1, .start, .start⟩]
    markers := []
    fatal := none }

/-- A session in which the first generated key is taken. -/
def seededSession : Session := (({} : Session).assign Algebra.calculator "autogen0" "1").1

/-- A host whose evaluator refuses every expression. -/
def refusing : Host := { evaluator := fun _ _ _ => .error (.failed "no") }

/-- A condition that cannot be evaluated leaves the same keys as one that holds and has a loop
inside it. -/
theorem expand_keys_of_same_shells_loop :
  conditionOverText.fatal = none ∧ conditionOverLoop.fatal = none ∧
    conditionOverText.nodes.map Node.shell = conditionOverLoop.nodes.map Node.shell ∧
    (conditionOverText.expand refusing seededSession).1.keys =
      (conditionOverLoop.expand { evaluator := Algebra.calculator } seededSession).1.keys ∧
    (conditionOverText.expand refusing seededSession).1.counter =
      (conditionOverLoop.expand { evaluator := Algebra.calculator } seededSession).1.counter ∧
    (conditionOverText.expand refusing seededSession).1.keyOr none =
      (conditionOverLoop.expand { evaluator := Algebra.calculator } seededSession).1.keyOr none ∧
    (conditionOverText.expand refusing seededSession).1.bindings.take
      seededSession.length = seededSession.bindings ∧
    (conditionOverLoop.expand { evaluator := Algebra.calculator } seededSession).1.bindings.take
      seededSession.length = seededSession.bindings
  := by
  have h : conditionOverText.nodes.map Node.shell = conditionOverLoop.nodes.map Node.shell := rfl
  exact ⟨rfl, rfl, h, expand_keys_of_same_shells rfl rfl h _ _ seededSession⟩

end Template

end MathTemplate

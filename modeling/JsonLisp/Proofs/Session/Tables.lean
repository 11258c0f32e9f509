import JsonLisp.Proofs.Evaluation.Definitions
import JsonLisp.Proofs.Session.Start

/-!
# The tables of a session

From the start of a session on the two tables only grow, through requests that succeed and through
requests that fail anywhere. The journal notes each definition when it is made, so that it gives the
order of the definitions apart from the tables.

## Main definitions

* `Session.Later`: a state that follows another one by requests and evaluations.
* `Session.Reachable`: a state that follows the start of a session.
* `reachable_tables`: what holds of the tables in these states.
-/

namespace JsonLisp

/-- The names are those of `order`, which is that of definition, each of them once, and they are
the names under which something is found. -/
structure Table.InStep (order : List Text) (t : Table) : Prop where
  names_eq : t.names = order.reverse
  nodup : t.names.Nodup
  contains_iff : ∀ name, t.contains name = true ↔ name ∈ t.names
  lookup_iff : ∀ name, (∃ value, t.lookup name = .ok value) ↔ name ∈ t.names

/-- The bindings stay in front of later ones, in their order, and each name keeps its value. -/
structure Table.KeptIn (t u : Table) : Prop where
  definitions_prefix : t.definitions <+: u.definitions
  lookup : ∀ name value, t.lookup name = .ok value → u.lookup name = .ok value

theorem Table.inStep {order : List Text} {t : Table} (hnames : t.names = order.reverse)
    (hnodup : t.names.Nodup) : t.InStep order where
  names_eq := hnames
  nodup := hnodup
  contains_iff _ := mem_names.symm
  lookup_iff name := by simp only [lookup_eq_ok, mem_names, contains_iff_find?]

theorem Table.Grows.keptIn {names : List Text} {t u : Table} (h : Grows names t u) :
    t.KeptIn u where
  definitions_prefix := h.definitions_prefix
  lookup _ _ hvalue := lookup_eq_ok.2 (h.find? (lookup_eq_ok.1 hvalue))

namespace State

/-- The global names in the order of their definition: the primitives, and then what the journal
notes. -/
def globalOrder (s : State) : List Text :=
  Primitive.globalNames.reverse ++ s.journal.reverse.filterMap Event.global?

/-- The names of the macros in the order of their definition. -/
def macroOrder (s : State) : List Text :=
  Primitive.letName :: s.journal.reverse.filterMap Event.macro?

end State

namespace Session

/-! ### Requests -/

/-- What may be asked of a session. -/
inductive Request where
  | eval (text : Text)
  | evaluate (form : Value)
  | evalPrelude (text : Text)

def Request.run (limits : Limits) : Request → Run Value
  | .eval text => evalText limits text
  | .evaluate form => evalTop limits form
  | .evalPrelude text => do
    let _ ← evalText limits text
    return .null

theorem onlyGrows_evalText (limits : Limits) (text : Text) : OnlyGrows (evalText limits text) := by
  have hforms (forms : List Value) :
      Congruence.growth.Rel (evalSequence (evaluate limits) .root forms)
        (evalSequence (evaluate limits) .root forms) :=
    Congruence.growth.rel_evalSequence (onlyGrows_evaluate limits) .root forms
  refine .bind (hforms _) fun value => ?_
  split
  · exact .throw _
  · exact .pure value

theorem Request.onlyGrows_run (limits : Limits) (request : Request) :
    OnlyGrows (request.run limits) := by
  cases request with
  | eval text => exact onlyGrows_evalText limits text
  | evaluate form => exact onlyGrows_evaluate limits form .root
  | evalPrelude text => exact .bind (onlyGrows_evalText limits text) fun _ => .pure _

/-- The states that follow `s`: after a request, whatever its outcome, and after the evaluation of
anything in any environment, also inside of other forms. -/
inductive Later (limits : Limits) (s : State) : State → Prop
  | refl : Later limits s s
  | request {t : State} (h : Later limits s t) (request : Request) :
    Later limits s (Outcome.state (request.run limits t))
  | evaluation {t : State} (h : Later limits s t) (v : Value) (env : Environment) (depth : Nat) :
    Later limits s (Outcome.state (evaluate limits v env (t.atDepth depth)))

theorem Later.grows {limits : Limits} {s t : State} (h : Later limits s t) : s.Grows t := by
  induction h with
  | refl => exact .refl s
  | @request t _ request ih => exact ih.trans (request.onlyGrows_run limits t)
  | @evaluation t _ v env depth ih =>
    exact (ih.trans (t.grows_atDepth depth)).trans (onlyGrows_evaluate limits v env _)

/-! ### Start -/

theorem onlyGrows_ofRun {α : Type} {r : Run α} (h : OnlyGrows r) : OnlyGrows (Start.ofRun r) := by
  intro s
  rw [Start.state_ofRun]
  exact h s

theorem onlyGrows_record {event : Event} (hglobals : event.global? = none)
    (hmacros : event.macro? = none) : OnlyGrows (Run.record event) :=
  fun s => s.grows_record hglobals hmacros

def growthLaw : Start.Law where
  Holds m := OnlyGrows m
  holds_pure := .pure
  holds_throw _ := .throw _
  holds_bind := .bind
  holds_record h := onlyGrows_ofRun (.read fun s => onlyGrows_record (h s).1 (h s).2)
  holds_evalTop limits form _ := onlyGrows_ofRun (onlyGrows_evaluate limits form .root)
  holds_evalText limits text := onlyGrows_ofRun (onlyGrows_evalText limits text)

theorem onlyGrows_start (surroundings : Surroundings) (files : Files) (prelude : Prelude)
    (expansion evaluation : Option Int) :
    OnlyGrows (start surroundings files prelude expansion evaluation) :=
  growthLaw.holds_start surroundings files prelude expansion evaluation

/-- The states of the sessions with these limits. -/
def Reachable (limits : Limits) (s : State) : Prop :=
  ∃ surroundings files prelude expansion evaluation s₀,
    start surroundings files prelude expansion evaluation initial = .ok limits s₀ ∧
      Later limits s₀ s

theorem Reachable.grows {limits : Limits} {s : State} (h : Reachable limits s) :
    initial.Grows s := by
  obtain ⟨surroundings, files, prelude, expansion, evaluation, s₀, hstart, hlater⟩ := h
  have hgrows := onlyGrows_start surroundings files prelude expansion evaluation initial
  rw [hstart] at hgrows
  exact hgrows.trans hlater.grows

theorem Later.trans {limits : Limits} {s t u : State} (h : Later limits s t)
    (g : Later limits t u) : Later limits s u := by
  induction g with
  | refl => exact h
  | request _ request ih => exact ih.request request
  | evaluation _ v env depth ih => exact ih.evaluation v env depth

theorem Reachable.later {limits : Limits} {s t : State} (h : Reachable limits s)
    (g : Later limits s t) : Reachable limits t := by
  obtain ⟨surroundings, files, prelude, expansion, evaluation, s₀, hstart, hlater⟩ := h
  exact ⟨surroundings, files, prelude, expansion, evaluation, s₀, hstart, hlater.trans g⟩

end Session

/-! ### The tables and the journal -/

namespace State

theorem Grows.globals_inStep {s : State} (h : Session.initial.Grows s) :
    s.globals.InStep s.globalOrder := by
  obtain ⟨events, hjournal, hglobals, -, -⟩ := h
  have hinitial : Session.initial.globals.names = Primitive.globalNames := by decide
  refine Table.inStep ?_ (hglobals.nodup (by decide))
  rw [hglobals.names_eq, hinitial, globalOrder, hjournal]
  simp [Session.initial, empty]

theorem Grows.macros_inStep {s : State} (h : Session.initial.Grows s) :
    s.macros.InStep s.macroOrder := by
  obtain ⟨events, hjournal, -, hmacros, -⟩ := h
  refine Table.inStep ?_ (hmacros.nodup (by decide))
  rw [hmacros.names_eq, macroOrder, hjournal]
  simp [Session.initial, empty, Table.names]

theorem Grows.globalOrder_prefix {s t : State} (h : s.Grows t) :
    s.globalOrder <+: t.globalOrder := by
  obtain ⟨events, hjournal, -, -, -⟩ := h
  simp [globalOrder, hjournal]

theorem Grows.macroOrder_prefix {s t : State} (h : s.Grows t) :
    s.macroOrder <+: t.macroOrder := by
  obtain ⟨events, hjournal, -, -, -⟩ := h
  simp [macroOrder, hjournal]

end State

/-! ### Whole sessions -/

open Session (Later Reachable)

/-- In all states of a session the tables are in step with the order of definition, and in all that
follow they keep their bindings and that order. After a definition its name has the value that the
definition has returned, and no other definition of it is begun. -/
theorem reachable_tables {limits : Limits} {s : State} (h : Reachable limits s) :
    (s.globals.InStep s.globalOrder ∧ s.macros.InStep s.macroOrder) ∧
    (∀ t, Later limits s t →
      (t.globals.InStep t.globalOrder ∧ t.macros.InStep t.macroOrder) ∧
      (s.globalOrder <+: t.globalOrder ∧ s.macroOrder <+: t.macroOrder) ∧
      s.globals.KeptIn t.globals ∧ s.macros.KeptIn t.macros) ∧
    (∀ name form env depth value t,
      evaluate limits (.definition name form) env (s.atDepth depth) = .ok value t →
      ∀ u, Later limits t u →
        (∀ scope, scope.find? name = none →
          evaluate limits (.text name) scope u = .ok value u) ∧
        (∀ other scope, u.depth < limits.evaluation →
          evaluate limits (.definition name other) scope u =
            .error (.alreadyGlobal name) u)) := by
  refine ⟨⟨h.grows.globals_inStep, h.grows.macros_inStep⟩, fun t hlater => ?_, ?_⟩
  · have ht := (h.later hlater).grows
    have hgrows := hlater.grows
    obtain ⟨_, hkept⟩ := hlater.grows
    exact ⟨⟨ht.globals_inStep, ht.macros_inStep⟩,
      ⟨hgrows.globalOrder_prefix, hgrows.macroOrder_prefix⟩,
      hkept.globals.keptIn, hkept.macros.keptIn⟩
  · intro name form env depth value t hdefined u hlater
    obtain ⟨_, hkept⟩ := hlater.grows
    have hvalue := hkept.globals.find? (evaluate_definition_ok hdefined)
    refine ⟨fun scope hlocal => ?_, fun other scope hroom => ?_⟩
    · rw [evaluate_text, lookup_global hlocal hvalue]
    · exact evaluate_definition_again (Table.contains_iff_find?.2 ⟨value, hvalue⟩) hroom other scope

/-- After the start of a session without a prelude, the name `a` is defined. -/
theorem reachable_tables_firstDefinition :
    let start := Session.start ⟨[], fun _ => none⟩ (fun path => .error (.refused .missing path))
      .none (some 1) (some 9) Session.initial
    let s := Outcome.state start
    let defined := evaluate ⟨1, 9⟩ (.definition [97] (.int 1)) .root (s.atDepth 0)
    let t := Outcome.state defined
    Reachable ⟨1, 9⟩ s ∧ (Outcome.value? defined).isSome = true ∧
      s.globals.InStep s.globalOrder ∧
      evaluate ⟨1, 9⟩ (.definition [97] .null) .root t = .error (.alreadyGlobal [97]) t := by
  intro start s defined t
  have hstart : Outcome.value? start = some ⟨1, 9⟩ := by decide +kernel
  have hdefined : (Outcome.value? defined).isSome = true := by decide +kernel
  have hreach : Reachable ⟨1, 9⟩ s :=
    ⟨_, _, _, _, _, s, Outcome.eq_ok_of_value? hstart, .refl⟩
  obtain ⟨value, hvalue⟩ := Option.isSome_iff_exists.1 hdefined
  obtain ⟨htables, -, hlater⟩ := reachable_tables hreach
  have hafter := hlater [97] (.int 1) .root 0 value t (Outcome.eq_ok_of_value? hvalue) t .refl
  have hdepth : t.depth = 0 := depth_evaluate _ _ _ _
  exact ⟨hreach, hdefined, htables.1, hafter.2 .null .root (by rw [hdepth]; decide)⟩

end JsonLisp

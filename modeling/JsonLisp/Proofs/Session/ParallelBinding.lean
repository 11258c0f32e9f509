import JsonLisp.Proofs.Evaluation.Levels
import JsonLisp.Proofs.Session.Isolation

/-!
# Parallel bindings

`let` is a macro whose transformer no program can replace. A call of it is expanded to the call of a
function, which is made for that one call, so that all right sides are evaluated before any name is
bound. The closure of this function is the only trace of the detour.

## Main definitions

* `Value.letForm`: the form of a `let`.
* `parallelBinding`: what it means.
* `Outcome.SameButIdentities`: outcomes that differ in the numbers of closures.
* `evaluate_letForm`: the two have the same outcome.
-/

namespace JsonLisp

open Primitive (letName bindingCall)
open Session (Reachable)

/-- The names and the forms by turns. -/
def alternating (pairs : List (Value × Value)) : List Value := pairs.flatMap fun p => [p.1, p.2]

def Value.letForm (pairs : List (Value × Value)) (body : List Value) : Value :=
  .list (.text letName :: .list (alternating pairs) :: body)

/-- All forms are evaluated in the environment outside, then the names are bound to the values, and
the body is evaluated with these bindings. -/
def parallelBinding (limits : Limits) (pairs : List (Value × Value)) (body : List Value)
    (env : Environment) : Run Value := do
  let values ← evalArguments (evaluate limits) env (pairs.map Prod.snd)
  let frame ← Run.ofExcept (Pattern.bind (pairs.map Prod.fst) values)
  evalSequence (evaluate limits) (env.extend frame) body

variable {limits : Limits} {s : State} {pairs : List (Value × Value)} {body : List Value}
  {env : Environment}

/-! ### The expansion -/

theorem pairs?_alternating (pairs : List (Value × Value)) :
    Primitive.pairs? (alternating pairs) = some pairs := by
  induction pairs with
  | nil => rfl
  | cons p rest ih =>
    change (Primitive.pairs? (alternating rest)).map (p :: ·) = _
    rw [ih]
    rfl

/-- The macro `let` keeps the transformer of the start. -/
theorem Session.Reachable.find?_let (h : Reachable limits s) :
    s.macros.find? letName = some (.builtin letName) := by
  obtain ⟨_, hgrows⟩ := h.grows
  exact hgrows.macros.find? rfl

section Expansion

variable (hlet : s.macros.find? letName = some (.builtin letName))
include hlet

theorem expandCall_let (limit : Int) :
    expandCall (engine limits) limit letName (.list (alternating pairs) :: body) s =
      .ok (bindingCall pairs body) s := by
  refine expandCall_of_ok ((expandOnce_of_find? hlet _).trans ?_) rfl limit
  change Run.ofExcept (Primitive.expandBindings _) s = _
  rw [Primitive.expandBindings, pairs?_alternating]
  rfl

/-- With a level left, a `let` is evaluated as its expansion. -/
theorem evaluate_letForm_expansion (hroom : s.depth < limits.evaluation) :
    evaluate limits (.letForm pairs body) env s =
      Run.nested (evaluate limits (bindingCall pairs body) env) s := by
  have hmacros : s.macros.contains letName = true := Table.contains_iff_find?.2 ⟨_, hlet⟩
  refine (evaluate_macroCall rfl hmacros hroom _ env).trans (nested_congr ?_)
  exact bind_of_ok (expandCall_let (s := s.atDepth (s.depth + 1)) hlet limits.expansion)

end Expansion

/-! ### The call of the function -/

/-- The function is made, and what is left is to evaluate its arguments and to call it. -/
theorem evalCall_function (hroom : s.depth < limits.evaluation) :
    evalCall (engine limits) (.list (.word "fn" :: .list (pairs.map Prod.fst) :: body))
      (pairs.map Prod.snd) env s = parallelBinding limits pairs body env s.afterClosure :=
  bind_of_ok (evaluate_function hroom (.list (pairs.map Prod.fst)) body env)

theorem evaluate_bindingCall (hroom : s.depth + 2 ≤ limits.evaluation) :
    evaluate limits (bindingCall pairs body) env s =
      Run.nested (parallelBinding limits pairs body env) s.afterClosure := by
  rw [bindingCall, evaluate_form, if_neg (by omega)]
  refine nested_congr (evalCall_function (s := s.atDepth (s.depth + 1)) ?_)
  rw [State.depth_atDepth]
  omega

/-- Without room for the function the call is refused. -/
theorem evaluate_bindingCall_full (hfull : limits.evaluation < s.depth + 2) :
    evaluate limits (bindingCall pairs body) env s =
      .error (.nestedTooDeep limits.evaluation) s := by
  rw [bindingCall, evaluate_form]
  split
  · rfl
  · refine nested_of_error (bind_of_error (evaluate_full ?_ _ _ env))
    rw [State.depth_atDepth]
    omega

section Let

variable (hlet : s.macros.find? letName = some (.builtin letName))
include hlet

theorem evaluate_letForm_room (hroom : s.depth + 3 ≤ limits.evaluation) :
    evaluate limits (.letForm pairs body) env s =
      Run.nested (Run.nested (parallelBinding limits pairs body env)) s.afterClosure := by
  rw [evaluate_letForm_expansion hlet (by omega)]
  refine nested_congr (evaluate_bindingCall (s := s.atDepth (s.depth + 1)) ?_)
  rw [State.depth_atDepth]
  omega

theorem evaluate_letForm_full (hfull : limits.evaluation < s.depth + 3) :
    evaluate limits (.letForm pairs body) env s =
      .error (.nestedTooDeep limits.evaluation) s := by
  by_cases hnone : limits.evaluation ≤ s.depth
  · exact evaluate_full hnone _ _ env
  · rw [evaluate_letForm_expansion hlet (by omega)]
    refine nested_of_error (evaluate_bindingCall_full ?_)
    rw [State.depth_atDepth]
    omega

end Let

/-! ### One closure more -/

/-- The same tables and the same output, but for the identities of closures, which `ρ` maps. -/
structure State.SameButIdentities (ρ : Nat → Nat) (s t : State) : Prop where
  globals : t.globals.entries = Value.renumberBindings ρ s.globals.entries
  macros : t.macros.entries = Value.renumberBindings ρ s.macros.entries
  printed : t.printed = s.printed
  depth : t.depth = s.depth

/-- The same value or the same error, but for the identities of closures. -/
inductive Outcome.SameButIdentities (ρ : Nat → Nat) :
    Outcome Error Value → Outcome Error Value → Prop
  | ok (v : Value) {s t : State} : s.SameButIdentities ρ t →
      SameButIdentities ρ (.ok v s) (.ok (v.renumber ρ) t)
  | error (e : Error) {s t : State} : s.SameButIdentities ρ t →
      SameButIdentities ρ (.error e s) (.error e t)

theorem State.Renumbered.sameButIdentities {c δ n : Nat} {s t : State} (h : Renumbered c δ n s t) :
    s.SameButIdentities (shift c δ) t where
  globals := (Value.renumbersTo_entries.1 h.globals).2.symm
  macros := (Value.renumbersTo_entries.1 h.macros).2.symm
  printed := h.printed.symm
  depth := h.depth.symm

namespace Simulation

theorem Outcomes.sameButIdentities {c δ n : Nat} {r r' : Outcome Error Value}
    (h : (renumbered c δ).Outcomes n (renumbered c δ).Val r r') :
    r.SameButIdentities (shift c δ) r' := by
  cases h with
  | ok _ hvalue hst =>
    obtain ⟨-, rfl⟩ := hvalue
    exact .ok _ hst.sameButIdentities
  | error _ _ hst => exact .error _ hst.sameButIdentities

variable {W : Type} [Preorder W] (S : Simulation W) {w : W}

theorem runs_parallelBinding (limits : Limits)
    (hpairs : ∀ p ∈ pairs, S.Val w p.1 p.1 ∧ S.Val w p.2 p.2)
    (hbody : ∀ v ∈ body, S.Val w v v) (henv : S.Env w env env) :
    S.Runs w S.Val (parallelBinding limits pairs body env)
      (parallelBinding limits pairs body env) := by
  have hnames : List.Forall₂ (S.Val w) (pairs.map Prod.fst) (pairs.map Prod.fst) :=
    List.forall₂_same.2 (List.forall_mem_map.2 fun p hp => (hpairs p hp).1)
  have hforms : List.Forall₂ (S.Val w) (pairs.map Prod.snd) (pairs.map Prod.snd) :=
    List.forall₂_same.2 (List.forall_mem_map.2 fun p hp => (hpairs p hp).2)
  have heval := S.runs_evaluate limits
  refine runs_bind (runs_evalArguments heval henv hforms) fun hle hvalues => ?_
  refine runs_bind (R := S.Frames)
    (runs_ofExcept (results_bindPattern (vals_mono hle hnames) hvalues)) fun hle' hframe => ?_
  have hmore := le_trans hle hle'
  exact runs_evalSequence heval (S.env_extend (S.env_mono hmore henv) hframe)
    (vals_mono hmore (List.forall₂_same.2 hbody))

end Simulation

@[simp] theorem Value.known_letForm {n : Nat} : (Value.letForm pairs body).Known n ↔
    (∀ p ∈ pairs, p.1.Known n ∧ p.2.Known n) ∧ ∀ v ∈ body, v.Known n := by
  simp [letForm, alternating, -List.mem_flatMap, List.forall_mem_flatMap]

theorem sameButIdentities_parallelBinding (limits : Limits) (hs : s.Known)
    (hform : (Value.letForm pairs body).Known s.nextIdentity)
    (henv : ∀ b ∈ env.items, b.2.Known s.nextIdentity) :
    Outcome.SameButIdentities (shift s.nextIdentity 1)
      (Run.nested (Run.nested (parallelBinding limits pairs body env)) s)
      (Run.nested (Run.nested (parallelBinding limits pairs body env)) s.afterClosure) := by
  obtain ⟨hpairs, hbody⟩ := Value.known_letForm.1 hform
  have hfixed : ∀ i < s.nextIdentity, shift s.nextIdentity 1 i = i := fun _ => shift_of_lt 1
  have hrun := (Simulation.renumbered s.nextIdentity 1).runs_parallelBinding limits
    (fun p hp => ⟨(hpairs p hp).1.renumbersTo_self hfixed, (hpairs p hp).2.renumbersTo_self hfixed⟩)
    (fun v hv => (hbody v hv).renumbersTo_self hfixed) (Environment.renumbersTo_self hfixed henv)
  have hst := hs.renumbered (t := s.afterClosure) rfl rfl rfl rfl rfl
  exact (Simulation.runs_nested (Simulation.runs_nested hrun) hst).sameButIdentities

/-- In every state of a session and in every environment a `let` is evaluated as what it means, from
the state after one more closure has been made, if there are three levels left, and otherwise it is
refused and changes nothing. Where all closures have been made before, as programs leave it
(`ReadLoop.Reached.known`), that is the outcome from the state itself, but for the identities of the
closures made since. -/
theorem evaluate_letForm (h : Reachable limits s) (pairs : List (Value × Value))
    (body : List Value) (env : Environment) (d : Nat) :
    (d + 3 ≤ limits.evaluation →
      evaluate limits (.letForm pairs body) env (s.atDepth d) =
        Run.nested (Run.nested (parallelBinding limits pairs body env))
          (s.atDepth d).afterClosure ∧
      (s.Known → (Value.letForm pairs body).Known s.nextIdentity →
        (∀ b ∈ env.items, b.2.Known s.nextIdentity) →
        Outcome.SameButIdentities (shift s.nextIdentity 1)
          (Run.nested (Run.nested (parallelBinding limits pairs body env)) (s.atDepth d))
          (evaluate limits (.letForm pairs body) env (s.atDepth d)))) ∧
    (limits.evaluation < d + 3 →
      evaluate limits (.letForm pairs body) env (s.atDepth d) =
        .error (.nestedTooDeep limits.evaluation) (s.atDepth d)) := by
  have hlet : (s.atDepth d).macros.find? letName = some (.builtin letName) := h.find?_let
  refine ⟨fun hroom => ?_, fun hfull => evaluate_letForm_full hlet hfull⟩
  have heval : evaluate limits (.letForm pairs body) env (s.atDepth d) = _ :=
    evaluate_letForm_room hlet hroom
  refine ⟨heval, fun hs hform henv => ?_⟩
  rw [heval]
  have hknown : (s.atDepth d).Known := ⟨hs.globals, hs.macros⟩
  exact sameButIdentities_parallelBinding limits hknown hform henv

/-- In `["let", ["f", ["fn", [], true], "&", true, "r", false], "f"]` the last name takes two values,
and the value of the form is a closure. The names `let` and `fn` may be bound outside. With two
levels left the form is refused. -/
theorem evaluate_letForm_restName :
    let pairs : List (Value × Value) := [(.word "f", .list [.word "fn", .list [], .bool true]),
      (.word "&", .bool true), (.word "r", .bool false)]
    let form := Value.letForm pairs [.word "f"]
    let env : Environment := [[(letName, .bool true), (SpecialForm.fnName, .bool true)]]
    let meaning := parallelBinding ⟨1, 9⟩ pairs [.word "f"] env
    let start := Session.start ⟨[], fun _ => none⟩ (fun path => .error (.refused .missing path))
      .none (some 1) (some 9) Session.initial
    let s := Outcome.state start
    Reachable ⟨1, 9⟩ s ∧ s.Known ∧
      evaluate ⟨1, 9⟩ form env (s.atDepth 6) =
        Run.nested (Run.nested meaning) (s.atDepth 6).afterClosure ∧
      Outcome.SameButIdentities (shift s.nextIdentity 1)
        (Run.nested (Run.nested meaning) (s.atDepth 6)) (evaluate ⟨1, 9⟩ form env (s.atDepth 6)) ∧
      evaluate ⟨1, 9⟩ form env (s.atDepth 7) = .error (.nestedTooDeep 9) (s.atDepth 7) := by
  intro pairs form env meaning start s
  have hstart : Outcome.value? start = some ⟨1, 9⟩ := by decide +kernel
  have hs : Reachable ⟨1, 9⟩ s := ⟨_, _, _, _, _, s, Outcome.eq_ok_of_value? hstart, .refl⟩
  have hknown : s.Known := (ReadLoop.Reached.start (Outcome.eq_ok_of_value? hstart)).known
  have hform : form.Known s.nextIdentity := by simp [form, pairs, Value.word]
  have henv : ∀ b ∈ env.items, b.2.Known s.nextIdentity := by simp [env, Environment.items]
  obtain ⟨heval, hsame⟩ := (evaluate_letForm hs pairs [.word "f"] env 6).1 (by decide)
  exact ⟨hs, hknown, heval, hsame hknown hform henv,
    (evaluate_letForm hs pairs [.word "f"] env 7).2 (by decide)⟩

end JsonLisp

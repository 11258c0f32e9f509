import JsonLisp.Proofs.Primitive.Comparison
import JsonLisp.Proofs.Session.Bootstrap

/-!
# Linear recursion

A function that calls itself once, inside of a sum and a condition, has three forms under evaluation
for each call: the call, the condition and the sum. So the limit of nesting fixes the number of calls
exactly, and a recursion without an end is refused by that limit.

## Main definitions

* `Session.countDefinition`: a function that counts down to zero and adds up on its way back.
* `Session.Counting`: the states in which its calls have their meaning.

## Main statements

* `Session.Counting.takes_count`: the levels that a count from a natural number takes.
* `Session.Counting.needs_count`: for a negative number no levels are enough.
* `count_reaches_limit`: the counts of a new session.
-/

namespace JsonLisp

open Text (ofString)
open Value (word)

theorem Value.same_int (m n : Int) : (Value.int m).same (.int n) = decide (m = n) := by
  rw [Bool.eq_iff_iff, decide_eq_true_iff]
  simp [same, equalBy, equalAtoms, number?, Number.compare?, Std.LawfulEqCmp.compare_eq_iff_eq]

namespace Session

/-! ### The function -/

/-- `["==", "n", 0]`. -/
def countTest : Value := .list [word "==", word "n", .int 0]

/-- `["-", "n", 1]`. -/
def countLess : Value := .list [word "-", word "n", .int 1]

/-- `["+", 1, ["count", ["-", "n", 1]]]`. -/
def countSum : Value := .list [word "+", .int 1, .list [word "count", countLess]]

/-- `["if", ["==", "n", 0], 0, ["+", 1, ["count", ["-", "n", 1]]]]`. -/
def countBody : Value := .list [word "if", countTest, .int 0, countSum]

/-- The `fn` form of the function. -/
def countFunction : List Value := [word "fn", .list [word "n"], countBody]

/-- `["defun", "count", ["n"], ["if", ["==", "n", 0], 0, ["+", 1, ["count", ["-", "n", 1]]]]]`. -/
def countDefinition : Value := defunForm (word "count") (.list [word "n"]) [countBody]

/-- `["count", n]`. -/
def countCall (n : Int) : Value := .list [word "count", .int n]

/-- The scope of the body. -/
def countScope (n : Int) : Environment := Environment.root.extend [(ofString "n", .int n)]

/-- The function is defined, and no macro hides it or a primitive that it calls. -/
structure Counting (s : State) : Prop where
  count : ∃ i, s.globals.find? (ofString "count") =
    some (.closure i countFunction Environment.root)
  primitives : ∀ name ∈ [ofString "==", ofString "+", ofString "-"],
    s.globals.find? name = some (.builtin name)
  noMacros : ∀ name ∈ [ofString "==", ofString "+", ofString "-", ofString "count"],
    s.macros.contains name = false

namespace Counting

variable {limits : Limits} {s : State} {env : Environment} {k : Nat}

/-! ### The parts of the body -/

theorem takes_name (n : Int) :
    TakesLevels limits s 0 (evaluate limits (word "n") (countScope n)) (.int n) := .name rfl

theorem takes_test (h : Counting s) (n : Int) :
    TakesLevels limits s 1 (evaluate limits countTest (countScope n))
      (.bool (decide (n = 0))) := by
  have hrun : (Primitive.comparison .equal).run [.int n, .int 0] =
      pure (.bool (decide (n = 0))) := by
    have htwo : 2 ≤ [Value.int n, .int 0].length := le_rfl
    obtain ⟨t, ht, hiff⟩ := Relation.chain_equal htwo
    rw [List.isChain_pair, Value.same_int, ← Bool.eq_iff_iff] at hiff
    rw [Primitive.run, ht, hiff]
    rfl
  exact .call rfl (h.noMacros _ (by decide)) rfl (h.primitives _ (by decide)) rfl hrun
    ((takes_name n).argument ((TakesLevels.int 0).argument .noArguments))

theorem takes_less (h : Counting s) (n : Int) :
    TakesLevels limits s 1 (evaluate limits countLess (countScope n)) (.int (n - 1)) :=
  .call (p := .arithmetic .sub) rfl (h.noMacros _ (by decide)) rfl (h.primitives _ (by decide)) rfl
    rfl ((takes_name n).argument ((TakesLevels.int 1).argument .noArguments))

/-- The branch of the condition. -/
def branch (limits : Limits) (n : Int) (test : Value) : Run Value :=
  if test.isTrue then evaluate limits (.int 0) (countScope n)
  else evaluate limits countSum (countScope n)

theorem takes_body (h : Counting s) {n : Int} {v : Value}
    (hbranch : TakesLevels limits s k (branch limits n (.bool (decide (n = 0)))) v) :
    TakesLevels limits s (max 1 k + 1) (evaluate limits countBody (countScope n)) v :=
  .form ((h.takes_test n).bind (f := branch limits n) hbranch)

theorem needs_body (h : Counting s) {n : Int}
    (hbranch : NeedsLevels limits s k (branch limits n (.bool (decide (n = 0))))) :
    NeedsLevels limits s (k + 1) (evaluate limits countBody (countScope n)) :=
  .form (.bind_right (f := branch limits n) (h.takes_test n) hbranch)

theorem branch_of_ne {n : Int} (hn : n ≠ 0) :
    branch limits n (.bool (decide (n = 0))) = evaluate limits countSum (countScope n) := by
  rw [branch, decide_eq_false hn]
  rfl

/-! ### The calls -/

theorem callsCount (h : Counting s) (hlocal : env.find? (ofString "count") = none) :
    ∃ i, CallsGlobal s env (ofString "count")
      (.closure i countFunction Environment.root) := by
  obtain ⟨i, hcount⟩ := h.count
  exact ⟨i, rfl, h.noMacros _ (by decide), hlocal, hcount⟩

/-- A call takes a level more than its argument and the body. -/
theorem takes_call (h : Counting s) (hlocal : env.find? (ofString "count") = none) {e : Value}
    {m : Nat} {n : Int} {v : Value} (he : TakesLevels limits s m (evaluate limits e env) (.int n))
    (hbody : TakesLevels limits s k (evaluate limits countBody (countScope n)) v) :
    TakesLevels limits s (max m k + 1) (evaluate limits (.list [word "count", e]) env) v := by
  obtain ⟨i, hcalls⟩ := h.callsCount hlocal
  have hcall := TakesLevels.callGlobal hcalls (he.argument .noArguments) hbody
  rwa [Nat.max_zero] at hcall

theorem needs_call (h : Counting s) (hlocal : env.find? (ofString "count") = none) {e : Value}
    {m : Nat} {n : Int} (he : TakesLevels limits s m (evaluate limits e env) (.int n))
    (hbody : NeedsLevels limits s k (evaluate limits countBody (countScope n))) :
    NeedsLevels limits s (k + 1) (evaluate limits (.list [word "count", e]) env) := by
  obtain ⟨i, hcalls⟩ := h.callsCount hlocal
  exact .callGlobal hcalls (.bind_right (he.argument .noArguments) hbody)

/-- From one natural number to the next the body takes three levels more. -/
theorem takes_countBody (h : Counting s) (n : Nat) :
    TakesLevels limits s (3 * n + 2) (evaluate limits countBody (countScope n)) (.int n) := by
  induction n with
  | zero =>
    have hbranch : TakesLevels limits s 0 (branch limits 0 (.bool (decide ((0 : Int) = 0))))
        (.int 0) := .int 0
    exact h.takes_body hbranch
  | succ n ih =>
    have hless : TakesLevels limits s 1 (evaluate limits countLess (countScope (n + 1)))
        (.int n) := by
      have hminus : TakesLevels limits s 1 (evaluate limits countLess (countScope (n + 1)))
          (.int (n + 1 - 1)) := h.takes_less (n + 1)
      rwa [Int.add_sub_cancel] at hminus
    have hcall := h.takes_call rfl hless ih
    have hsum : TakesLevels limits s _ (evaluate limits countSum (countScope (n + 1)))
        (.int (1 + n)) :=
      .call (p := .arithmetic .add) rfl (h.noMacros _ (by decide)) rfl
        (h.primitives _ (by decide)) rfl rfl
        ((TakesLevels.int 1).argument (hcall.argument .noArguments))
    have hpos : (n + 1 : Int) ≠ 0 := by omega
    rw [← branch_of_ne hpos, Int.add_comm 1] at hsum
    have hbody := h.takes_body hsum
    have hlevels : max 1 (max 0 (max (max 1 (3 * n + 2) + 1) 0) + 1) + 1 = 3 * (n + 1) + 2 := by
      omega
    rw [hlevels] at hbody
    exact hbody

/-- A count from a natural number takes three levels for each call. -/
theorem takes_count (h : Counting s) (hlocal : env.find? (ofString "count") = none) (n : Nat) :
    TakesLevels limits s (3 * n + 3) (evaluate limits (countCall n) env) (.int n) := by
  have hnumber : TakesLevels limits s 0 (evaluate limits (.int n) env) (.int n) := .int n
  have hcall := h.takes_call hlocal hnumber (h.takes_countBody n)
  rwa [Nat.zero_max] at hcall

/-- The body calls the function with a number that is negative as well, and so on. -/
theorem needs_countBody (h : Counting s) {n : Int} (hn : n < 0) (k : Nat) :
    NeedsLevels limits s (3 * k) (evaluate limits countBody (countScope n)) := by
  induction k generalizing n with
  | zero => exact .zero _
  | succ k ih =>
    have hlocal : (countScope n).find? (ofString "count") = none := rfl
    have hcall := h.needs_call hlocal (h.takes_less n) (ih (n := n - 1) (by omega))
    have hplus : CallsGlobal s (countScope n) (ofString "+") (.builtin (ofString "+")) :=
      ⟨rfl, h.noMacros _ (by decide), rfl, h.primitives _ (by decide)⟩
    have hargs : NeedsLevels limits s (3 * k + 1) (evalArguments (evaluate limits) (countScope n)
        [.int 1, .list [word "count", countLess]]) :=
      .bind_right (TakesLevels.int 1) (.bind_left (.bind_left hcall))
    have hsum : NeedsLevels limits s (3 * k + 2) (evaluate limits countSum (countScope n)) :=
      .callGlobal hplus (.bind_left hargs)
    rw [← branch_of_ne (by omega)] at hsum
    exact h.needs_body hsum

theorem needs_count (h : Counting s) (hlocal : env.find? (ofString "count") = none) {n : Int}
    (hn : n < 0) (k : Nat) : NeedsLevels limits s (3 * k + 1) (evaluate limits (countCall n) env) :=
  h.needs_call hlocal (TakesLevels.int n) (h.needs_countBody hn k)

end Counting

/-! ### A new session -/

/-- The state of a new session after the definition. -/
def afterDefinition (events : List Event) : State :=
  (afterBootstrap events).afterClosure.afterGlobal (ofString "count")
    (.closure 2 countFunction Environment.root)

theorem counting_afterDefinition (events : List Event) : Counting (afterDefinition events) where
  count := ⟨2, Table.find?_add_self _ _ _⟩
  primitives := by
    simp only [List.forall_mem_cons]
    exact ⟨rfl, rfl, rfl, fun _ hname => absurd hname List.not_mem_nil⟩
  noMacros := by
    simp only [List.forall_mem_cons]
    exact ⟨rfl, rfl, rfl, rfl, fun _ hname => absurd hname List.not_mem_nil⟩

theorem evalTop_countDefinition {limits : Limits} (hroom : 6 ≤ limits.evaluation)
    (events : List Event) : evalTop limits countDefinition (afterBootstrap events) =
      .ok (word "count") (afterDefinition events) := by
  have hintact : DefunIntact (afterBootstrap events) := ⟨⟨0, rfl⟩, rfl, rfl, rfl, rfl⟩
  have hlevels : ((0 : Nat) : Int) + 6 ≤ limits.evaluation := by omega
  exact hintact.evaluate_defunForm_name hlevels rfl (.list [word "n"]) [countBody] Environment.root

end Session

open Session (limitFrom framesFor start initial evalTop countDefinition countCall)

/-- In a new session with a limit of nesting of at least six, the function can be defined. From then
on a count from a natural number returns that number if the limit allows three levels for each of
its calls, the last one included. All other counts, also those from negative numbers, are refused by
the limit. No count changes the state. -/
theorem count_reaches_limit (surroundings : Surroundings) (files : Files)
    (expansion evaluation : Option Int) (x limit : Int)
    (hexpansion : limitFrom surroundings.expansionLimit expansion = pure x)
    (hevaluation : limitFrom surroundings.evaluationLimit evaluation = pure limit)
    (hroom : 6 ≤ limit) (hframes : framesFor limit < Nat.pow 2 31) :
    ∃ s t, start surroundings files .none expansion evaluation initial = .ok ⟨x, limit⟩ s ∧
      evalTop ⟨x, limit⟩ countDefinition s = .ok (word "count") t ∧
      ∀ n : Int, evalTop ⟨x, limit⟩ (countCall n) t =
        if 0 ≤ n ∧ 3 * n + 3 ≤ limit then .ok (.int n) t
        else .error (.nestedTooDeep limit) t := by
  obtain ⟨events, hstart⟩ := Session.start_bootstrap files hexpansion hevaluation hframes
  have hbootstrap : Session.bootstrap ⟨x, limit⟩ (Session.fresh events) =
      .ok () (Session.afterBootstrap events) := Session.bootstrap_fresh hroom events
  refine ⟨Session.afterBootstrap events, Session.afterDefinition events,
    hstart.trans (bind_of_ok (Session.Start.ofRun_of_ok hbootstrap)),
    Session.evalTop_countDefinition hroom events, fun n => ?_⟩
  have h := Session.counting_afterDefinition events
  have hlocal : Environment.root.find? (ofString "count") = none := rfl
  by_cases hn : n < 0
  · rw [if_neg (by omega)]
    exact NeedsLevels.refused (fun k d hfew => h.needs_count hlocal hn k d (by omega)) 0
  · obtain ⟨n, rfl⟩ := Int.eq_ofNat_of_zero_le (Int.not_lt.1 hn)
    have hcount : TakesLevels ⟨x, limit⟩ (Session.afterDefinition events) (3 * n + 3)
        (evaluate ⟨x, limit⟩ (countCall n) .root) (.int n) := h.takes_count hlocal n
    split
    · exact hcount.ok (d := 0) (by dsimp only; omega)
    · exact hcount.refused (d := 0) (by dsimp only; omega)

/-- With twelve levels a session counts from three, but neither from four nor from minus one. -/
theorem count_reaches_limit_twelveLevels :
    framesFor 12 < Nat.pow 2 31 ∧ ∃ s t,
      start ⟨[], fun _ => none⟩ (fun path => .error (.refused .missing path)) .none (some 1)
        (some 12) initial = .ok ⟨1, 12⟩ s ∧
      evalTop ⟨1, 12⟩ countDefinition s = .ok (word "count") t ∧
      evalTop ⟨1, 12⟩ (countCall 3) t = .ok (.int 3) t ∧
      evalTop ⟨1, 12⟩ (countCall 4) t = .error (.nestedTooDeep 12) t ∧
      evalTop ⟨1, 12⟩ (countCall (-1)) t = .error (.nestedTooDeep 12) t := by
  have hframes : framesFor 12 < Nat.pow 2 31 := by decide
  obtain ⟨s, t, hstart, hdefinition, hcount⟩ := count_reaches_limit ⟨[], fun _ => none⟩
    (fun path => .error (.refused .missing path)) (some 1) (some 12) 1 12 rfl rfl (by decide) hframes
  exact ⟨hframes, s, t, hstart, hdefinition, hcount 3, hcount 4, hcount (-1)⟩

end JsonLisp

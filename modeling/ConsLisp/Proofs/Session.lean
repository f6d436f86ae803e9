import ConsLisp.Proofs.Evaluation.Invariant
import ConsLisp.Proofs.Form.Closure
import ConsLisp.Session

/-!
# Invariants of sessions

An invariant of evaluation that every form from a source satisfies holds of all bindings of a
session, from its start and after every source, whether that succeeded or not.
-/

namespace ConsLisp

/-- The same property of values with any error allowed. -/
def Invariant.permissive (invariant : Invariant) : Invariant :=
  { invariant with
    allowed := fun _ => True
    runtime := fun _ => True.intro
    parameters := fun _ => .inr True.intro }

/-- Reading hands on an invariant that strings have and that a quote hands on: all else that makes
up a form is also made by evaluation. -/
theorem Invariant.closed (invariant : Invariant)
    (string : ∀ text, invariant.valid (.string text))
    (quoted : ∀ {value}, invariant.valid value → invariant.valid (.quoted value)) :
    Form.Closed invariant.valid := by
  refine .of_cons (fun found => ?_) quoted invariant.nil invariant.cons
  cases Token.atom?_eq_some_iff.mp found with
  | integer number => exact invariant.number (.integer number)
  | float number => exact invariant.number (.float number)
  | string text => exact string text
  | truth => exact invariant.truth
  | nil => exact invariant.nil
  | symbol => exact invariant.symbol _

section

variable {invariant : Invariant} (closed : Form.Closed invariant.valid)
include closed

theorem runForms_keeps {σ : Type} [TokenSource σ] (limit : Nat) (strict : Bool) {value : Value}
    (own : invariant.valid value) (source : σ) :
    (invariant.permissive.run limit).Agree [] (fun _ => runForms limit strict value source)
      invariant.valid := by
  fun_induction runForms limit strict value source with
  | case1 value source form rest step ih =>
      have evaluated := evaluate_keeps invariant.permissive limit (Form.read_holds closed step)
      exact evaluated.bind fun result holds => ih result holds
  | case2 => exact .pure own
  | case3 => exact .fail True.intro

theorem interpret_keeps (limit bufferSize : Nat) (strict : Bool) (source : Source) :
    (invariant.permissive.run limit).Agree [] (fun _ => interpret limit bufferSize strict source)
      invariant.valid := by
  cases source with
  | unreadable kind => exact .fail True.intro
  | _ => exact runForms_keeps closed limit strict invariant.nil _

namespace Session

theorem all_eval {session : Session} (own : session.environment.All invariant.valid)
    (source : Source) (strict : Bool) :
    (session.eval source strict).session.environment.All invariant.valid := by
  unfold eval
  split
  · exact own
  next size _ =>
      have all : (Machine.mk session.environment "").environment.All invariant.permissive.valid :=
        own
      exact ((interpret_keeps closed session.limit size strict source).run all).1

/-- Whatever a source gives has the property. -/
theorem valid_of_eval {session : Session} (own : session.environment.All invariant.valid)
    {source : Source} {strict : Bool} {value : Value}
    (given : (session.eval source strict).result = .ok value) : invariant.valid value := by
  unfold eval at given
  split at given
  · cases given
  next size _ =>
      have all : (Machine.mk session.environment "").environment.All invariant.permissive.valid :=
        own
      have accepted := ((interpret_keeps closed session.limit size strict source).run all).2.2
      have result : ((interpret session.limit size strict source).run
          ⟨session.environment, ""⟩).1 = .ok value := given
      rwa [result] at accepted

end Session

end

/-- A session that starts with the builtins and has run some sources. -/
inductive Session.Reachable : Session → Prop where
  | fresh (limit : Nat) (bufferSize : Except Error Nat) :
      Reachable { limit := limit, bufferSize := bufferSize }
  | eval {session : Session} (reachable : Reachable session) (source : Source) (strict : Bool) :
      Reachable (session.eval source strict).session

theorem Session.Reachable.all {invariant : Invariant} (closed : Form.Closed invariant.valid)
    {session : Session} (reachable : session.Reachable) :
    session.environment.All invariant.valid := by
  induction reachable with
  | fresh limit bufferSize => exact .initial invariant.builtin
  | eval reachable source strict ih => exact Session.all_eval closed ih source strict

end ConsLisp

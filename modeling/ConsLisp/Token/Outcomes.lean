import ConsLisp.Token.Progress

/-!
# All tokens of a source

Iterating a lexer to its end, either past the errors or up to the first one.
-/

namespace ConsLisp.Lexer

/-- Every token and every error up to the end of the source, in order. -/
def outcomes (lexer : Lexer) : List (Except LexicalError Token) :=
  match _step : lexer.next with
  | (.ok none, _) => []
  | (.ok (some token), rest) => .ok token :: outcomes rest
  | (.error cause, rest) => .error cause :: outcomes rest
termination_by lexer.remaining
decreasing_by
  all_goals
    have progress := lexer.next_remaining
    simp only [_step] at progress
    exact progress (by simp)

/-- All tokens, or the first error. -/
def tokens (lexer : Lexer) : Except LexicalError (List Token) :=
  lexer.outcomes.mapM id

end ConsLisp.Lexer

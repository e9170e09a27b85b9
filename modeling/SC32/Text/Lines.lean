/-!
Lines of a text. A line feed ends a line, together with one carriage return directly before it.
What follows the last line feed is a line only if it is not empty.
-/
namespace SC32.Text

/-- Cut after every line feed, which stays with its line. -/
def segments (cs : List Char) : List (List Char) :=
  cs.foldr (fun c ls =>
    if c = '\n' then [c] :: ls
    else match ls with
      | [] => [[c]]
      | l :: ls => (c :: l) :: ls) []

/-- A segment without its line feed and the carriage return before that. -/
def unterminated (l : List Char) : List Char :=
  match l.reverse with
  | '\n' :: '\r' :: r => r.reverse
  | '\n' :: r => r.reverse
  | _ => l

def lines (s : String) : List String :=
  (segments s.toList).map fun l => String.ofList (unterminated l)

@[simp] theorem flatten_segments (cs : List Char) : (segments cs).flatten = cs := by
  induction cs with
  | nil => rfl
  | cons c cs ih =>
    rw [segments, List.foldr_cons, ← segments]
    split
    · simp [ih]
    · cases h : segments cs <;> simp_all

end SC32.Text

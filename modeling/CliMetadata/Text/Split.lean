/-!
# Parts between separators

`split sep` cuts a text at every separator; there is always one part more than
there are separators, and a part may be empty.
-/

namespace CliMetadata.Text

/-- The parts of a text between the separators. -/
def split (sep : Char) : List Char → List (List Char)
  | [] => [[]]
  | c :: cs =>
    if c = sep then [] :: split sep cs
    else match split sep cs with
      | [] => [[c]]
      | part :: parts => (c :: part) :: parts

/-- The rest of a text after a given beginning. -/
def after? : (beginning : List Char) → List Char → Option (List Char)
  | [], cs => some cs
  | _ :: _, [] => none
  | b :: bs, c :: cs => if b = c then after? bs cs else none

end CliMetadata.Text

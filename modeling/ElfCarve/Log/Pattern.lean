/-!
# Patterns of messages

A pattern is a text that picks messages.  Which texts are patterns, and what they pick, is a matter
of the pattern language, and nothing that is proved of a run depends on it: `Patterns` stands for
any such language.  The command itself runs with `Patterns.plain`.
-/

namespace ElfCarve

class Patterns where
  /-- Whether a message is picked by the pattern that a text spells, if it spells one. -/
  picks? : String → Option (String → Bool)

namespace Patterns

def occursIn (text : List Char) : List Char → Bool
  | [] => text.isEmpty
  | c :: rest => text.isPrefixOf (c :: rest) || occursIn text rest

theorem occursIn_iff {text whole : List Char} : occursIn text whole ↔ text <:+: whole := by
  induction whole with
  | nil => simp [occursIn]
  | cons c rest ih =>
    rw [occursIn, Bool.or_eq_true, ih, List.isPrefixOf_iff_prefix, List.infix_cons_iff]

def special : List Char :=
  "\\.+*?()|[]\x7b\x7d^$".toList

/-- The patterns without a special character, which pick the messages that they occur in. -/
instance (priority := low) plain : Patterns where
  picks? text :=
    if text.toList.any special.contains then none
    else some fun message => occursIn text.toList message.toList

end Patterns

end ElfCarve

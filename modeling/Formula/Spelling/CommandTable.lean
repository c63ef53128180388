import Formula.Spelling.LongestMatch

/-!
# Command tables

A command table says what every command of a kind stands for, and finds the longest of them
at the beginning of a text.
-/

namespace Formula

/-- A table of commands with what they stand for. -/
structure CommandTable (α : Type) where
  /-- The commands with their meanings. -/
  entries : List (Text × α)
  /-- The commands, prepared for matching. -/
  spellings : Spellings := .ofList (entries.map (·.1))
  /-- The spellings are those of the entries. -/
  spellings_eq : spellings = .ofList (entries.map (·.1)) := by rfl

namespace CommandTable

variable {α : Type}

/-- The table of the given commands. -/
def ofList (entries : List (String × α)) : CommandTable α :=
  { entries := entries.map fun (command, a) => (command.toList, a) }

/-- What a command stands for. -/
def lookup (t : CommandTable α) (command : Text) : Option α := t.entries.lookup command

/-- The commands of the table, in order. -/
def commands (t : CommandTable α) : List Text := t.entries.map (·.1)

/-- The longest command at the beginning of a text, with its meaning and what follows. -/
def longest? (t : CommandTable α) (s : Text) : Option (Text × α × Text) := do
  let (command, rest) ← t.spellings.longest? s
  let a ← t.lookup command
  return (command, a, rest)

theorem length_lt_of_longest? {t : CommandTable α} {s command rest : Text} {a : α}
    (h : t.longest? s = some (command, a, rest)) :
  rest.length < s.length
  := by
  simp only [longest?, Option.bind_eq_bind, Option.pure_def, Option.bind_eq_some_iff,
    Option.some.injEq, Prod.mk.injEq] at h
  obtain ⟨⟨_, _⟩, hl, _, _, -, -, rfl⟩ := h
  exact Spellings.length_lt_of_longest? hl

end CommandTable

end Formula

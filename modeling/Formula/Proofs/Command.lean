import Formula.Proofs.Joining

/-!
# Items that begin with a command

An item that begins with a command is read by the first reader that has the command.  What
has to be shown of such an item is what that reader does with the arguments.
-/

namespace Formula

open Build Markup

namespace CommandTable

variable {α : Type} {t : CommandTable α} {command rest : Text} {a : α}

theorem mem_commands_of_lookup (h : t.lookup command = some a) :
  command ∈ t.commands
  := by
  obtain ⟨l₁, l₂, hl, -⟩ := List.lookup_eq_some_iff.1 h
  apply List.mem_map.2
  exact ⟨(command, a), by simp [hl], rfl⟩

/-- In a table of commands a command is found as a whole. -/
theorem longest?_command (ht : ∀ sp ∈ t.commands, isCommand sp = true)
    (ha : t.lookup command = some a) (hrest : Text.startsWithLetter rest = false) :
  t.longest? (command ++ rest) = some (command, a, rest)
  := by
  have hmem := mem_commands_of_lookup ha
  obtain ⟨name, rfl, hname⟩ := exists_of_isCommand (ht _ hmem)
  apply longest?_of_spellings _ ha
  rw [t.spellings_eq_ofList]
  apply Spellings.longest?_name hname hrest hmem
  intro sp hsp h
  obtain ⟨name', rfl, hname'⟩ := exists_of_isCommand (ht sp hsp)
  have := @Text.takeWhile_isLetter_append _ [] hname' rfl
  rw [List.append_nil] at this
  rw [Text.nameOf?, this] at h
  rw [Option.some.inj h]

end CommandTable

/-! ### Opening a group -/

theorem isCommand_style : ∀ sp ∈ styleCommands.commands, isCommand sp = true
  := by decide

/-- The escapes that begin with a brace have no name after it, or that of the wrapper of
text. -/
theorem escape_braced : ∀ sp ∈ Escape.table.commands, sp.head? = some '{' →
    (sp.tail ≠ [] ∧ sp.tail ≠ ['\\'])
      ∧ (Text.nameOf? sp.tail = some [] ∨ Text.nameOf? sp.tail = some "text".toList)
      ∧ sp.tail.getLast?.any Text.isLetter = false
  := by decide

/-- No escape begins with a brace and a command, apart from that of the wrapper of text. -/
theorem free_escape_braced {name rest : Text} (hname : Text.isLetters name = true)
    (hrest : Text.startsWithLetter rest = false) (htext : name ≠ "text".toList) :
  Reading.Free Escape.table.commands ('{' :: '\\' :: (name ++ rest))
  := by
  intro sp hsp hne rest' hstands
  cases sp with
  | nil => contradiction
  | cons c cs =>
    obtain ⟨rfl, hcs⟩ := List.cons.inj hstands.1
    obtain ⟨⟨hne', hbare⟩, hnames, hlast⟩ := escape_braced _ hsp rfl
    have hname' : Text.nameOf? cs = some name := by
      apply Spellings.nameOf?_of_stands hname hrest hne' hbare
      constructor
      · apply hcs
      · rw [Spellings.boundary, hlast]
        rfl
    rcases hnames with h | h
    · rw [List.tail_cons, hname'] at h
      obtain rfl := Option.some.inj h
      contradiction
    · rw [List.tail_cons, hname'] at h
      apply htext (Option.some.inj h)

/-- No escape begins with a brace that something other than a backslash follows. -/
theorem free_escape_of_ne {c : Char} {rest : Text} (h : c ≠ '\\') :
  Reading.Free Escape.table.commands ('{' :: c :: rest)
  := by
  intro sp hsp hne rest' hstands
  cases sp with
  | nil => contradiction
  | cons d ds =>
    obtain ⟨rfl, hds⟩ := List.cons.inj hstands.1
    obtain ⟨⟨hne', -⟩, hnames, -⟩ := escape_braced _ hsp rfl
    cases ds with
    | nil => contradiction
    | cons e es =>
      obtain ⟨rfl, -⟩ := List.cons.inj hds
      simp [Text.nameOf?, h] at hnames

/-- What does not begin with a backslash may stand first in a group. -/
theorem Opens.of_ne {c : Char} {s : Text} (h : c ≠ '\\') :
  Opens (c :: s)
  := by
  intro rest _
  constructor
  · apply free_escape_of_ne h
  · intro sp hsp hne rest' hstands
    obtain ⟨name, rfl, -⟩ := exists_of_isCommand (isCommand_style sp hsp)
    apply h (List.cons.inj hstands.1).1

/-- A command other than a style, and than the wrapper of text, may stand first in a group. -/
theorem Opens.command {name args : Text} (hname : Text.isLetters name = true)
    (hargs : Text.startsWithLetter args = false) (htext : name ≠ "text".toList)
    (hstyle : '\\' :: name ∉ styleCommands.commands) :
  Opens ('\\' :: (name ++ args))
  := by
  intro rest hfollow
  have hrest : Text.startsWithLetter (args ++ rest) = false :=
    Follow.left (a := '\\' :: name) hfollow (fun _ => hargs) (endsInName_command hname)
  rw [List.cons_append, List.append_assoc]
  constructor
  · apply free_escape_braced hname hrest htext
  · apply Reading.free_of_name hname hrest
    intro sp hsp
    obtain ⟨name', rfl, hname'⟩ := exists_of_isCommand (isCommand_style sp hsp)
    constructor
    · intro h
      obtain rfl := (List.cons.inj h).2
      contradiction
    · intro h
      have := @Text.takeWhile_isLetter_append _ [] hname' rfl
      rw [List.append_nil] at this
      rw [Text.nameOf?, this] at h
      obtain rfl := Option.some.inj h
      contradiction

/-! ### Commands as items -/

/-- What the reader of a command has to do with its arguments: it gives the nodes, whatever
follows, as long as its insides are read on texts longer than the arguments. -/
def ReadsArguments (t : SymbolTable) (r : Reader) (command args : Text) (ns : List Node) : Prop :=
  ∀ n rest, args.length < n → Text.startsWithLetter (args ++ rest) = false →
    Follow (command ++ args) rest → scriptMarker? rest = none →
    ∃ b, r .builtin (Reading.nestedBelow t n) (command ++ (args ++ rest)) = some b
      ∧ Gives b ns rest

variable {t : SymbolTable} [t.IsExtension]

/-- An item that begins with a command of a reader is read by that reader. -/
theorem Spells.command {cell : Bool} {k : Nat} {r : Reader} {l : List Text}
    {command args : Text} {ns : List Node} (hr : Reading.readers[k]? = some r)
    (hk : Reading.heads[k]? = some l) (hmem : command ∈ l) (hcommand : isCommand command = true)
    (htext : Text.code command.tail ≠ Text.code "text".toList)
    (hstyle : command ∉ styleCommands.commands)
    (hargs : Text.startsWithLetter args = false) (hwhole : Whole (command ++ args))
    (hclosed : Closed cell (command ++ args)) (hreads : ReadsArguments t r command args ns) :
  Spells t cell (command ++ args) ns
  := by
  obtain ⟨name, rfl, hname⟩ := exists_of_isCommand hcommand
  have htext' : name ≠ "text".toList := fun h => htext (congrArg Text.code h)
  constructor
  · exact ⟨'\\', name ++ args, rfl, by decide, rfl⟩
  · apply hwhole
  · apply Opens.command hname hargs htext' hstyle
  · apply hclosed
  · intro rest
    apply SymbolTable.EndsBefore.of_ne (by decide)
  · intro rest hfollow hscript _
    have hrest : Text.startsWithLetter (args ++ rest) = false :=
      Follow.left hfollow (fun _ => hargs) (endsInName_command hname)
    obtain ⟨b, hb, hgives⟩ := hreads ((name ++ (args ++ rest)).length + 1) rest
      (by simp only [List.length_append]; omega) hrest hfollow hscript
    have hknown := List.mem_flatten_of_mem
      (List.mem_of_getElem? (Reading.getElem?_knownSpellings hk)) hmem
    rw [List.cons_append, List.cons_append, List.append_assoc, Reading.item_cons,
      Reading.step_eq_builtin (SymbolTable.Misses.command hname hrest hknown),
      Reading.step_name hr hk hmem hname htext hrest hb]
    apply hgives

/-- Whether a command has an inert name, and is neither a style nor the wrapper of text. -/
def isPlainCommand : Text → Bool
  | '\\' :: name =>
    isInertName name && Text.code name != Text.code "text".toList
      && !styleCommands.commands.contains ('\\' :: name)
  | _ => false

/-- A plain command with arguments is read by the reader that has the command. -/
theorem Spells.withArguments {cell : Bool} {k : Nat} {r : Reader} {l : List Text}
    {command args : Text} {ns : List Node} (hr : Reading.readers[k]? = some r)
    (hk : Reading.heads[k]? = some l) (hmem : command ∈ l)
    (hplain : isPlainCommand command = true) (hargs : Text.startsWithLetter args = false)
    (hwhole : Whole args) (hclosed : Closed cell args)
    (hreads : ReadsArguments t r command args ns) :
  Spells t cell (command ++ args) ns
  := by
  unfold isPlainCommand at hplain
  split at hplain
  · rename_i name
    simp only [Bool.and_eq_true, bne_iff_ne, Bool.not_eq_true', List.contains_eq_mem,
      decide_eq_false_iff_not] at hplain
    obtain ⟨⟨hname, htext⟩, hstyle⟩ := hplain
    have hletters : isCommand ('\\' :: name) = true := by
      simp only [isInertName, Bool.and_eq_true] at hname
      apply hname.1.1.1.1
    apply Spells.command hr hk hmem hletters htext hstyle hargs
    · apply hwhole.append
    · apply (Closed.command _ hname).append hclosed
      intro _
      apply hargs
    · apply hreads
  · contradiction

/-! ### Arguments -/

section Arguments

open Writing

variable {t : SymbolTable} {keep cell : Bool} {m rest : Text} {n : Nat} {ns : List Node}

theorem whole_braced (m : Text) : Whole (braced m) := Whole.concat (by decide) (by decide)

theorem length_braced (m : Text) :
  (braced m).length = m.length + 2
  := by
  simp only [braced, List.length_append, List.length_singleton]
  omega

namespace Spelled

theorem closed_braced {cell' : Bool} (h : Spelled t keep cell m ns) :
  Closed cell' (braced m)
  := Closed.braced (h.closed.mono (by simp))

theorem makes_sequence (h : Spelled t keep cell m ns) (hn : m.length < n) :
  Makes ((Reading.nestedBelow t n).sequence m) ns
  := by
  rw [Reading.sequence_nestedBelow hn]
  apply (h.mono (by simp) id).makes

theorem makes_spaced (h : Spelled t true cell m ns) (hn : m.length < n) :
  Makes ((Reading.nestedBelow t n).spaced m) ns
  := by
  rw [Reading.spaced_nestedBelow hn]
  apply h.makes_items []

/-- A group is an argument, with what follows it. -/
theorem argument_eq (h : Spelled t keep cell m ns) (rest : Text) :
  Markup.argument (braced m ++ rest) = (m, rest)
  := h.closed.balanced.argument rest

theorem nextGroup?_eq (h : Spelled t keep cell m ns) (rest : Text) :
  Markup.nextGroup? (braced m ++ rest) = some (m, rest)
  := h.closed.balanced.nextGroup? rest

/-- An argument is read as what it spells. -/
theorem returns_argument (h : Spelled t keep cell m ns) (hn : m.length < n) (rest : Text) :
  Returns ((Reading.nestedBelow t n).argument (braced m ++ rest)) fun read =>
    read.1.map Node.bare = ns ∧ read.2 = rest
  := by
  rw [Nested.argument, h.argument_eq]
  apply Returns.bind (h.makes_sequence hn)
  intro made hmade
  apply Returns.pure ⟨hmade, rfl⟩

/-- A group that stands next is read as what it spells. -/
theorem returns_group? (h : Spelled t keep cell m ns) (hn : m.length < n) (rest : Text) :
  Returns ((Reading.nestedBelow t n).group? (braced m ++ rest)) fun read =>
    read.1.map Node.bare = ns ∧ read.2 = rest
  := by
  rw [Nested.group?, h.nextGroup?_eq]
  apply Returns.bind (h.makes_sequence hn)
  intro made hmade
  apply Returns.pure ⟨hmade, rfl⟩

end Spelled

end Arguments

end Formula

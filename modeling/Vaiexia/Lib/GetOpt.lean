import Vaiexia.Lib.Text

/-!
# Command lines

How programs that use `getopt_long` read their words: options of one letter, alone or together, and
options of a name, with arguments that are written to them or are the next word; operands in
between; and nothing but operands after `--`.

An argument that is a word of its own is never read as anything else, whatever it looks like.  So
the words that were written for some options (`Gives`) are read back as these options
(`parse_of_gives`), with any arguments.
-/

namespace Vaiexia.Lib

namespace GetOpt

/-- What argument an option takes. -/
inductive Takes where
  | nothing
  | argument
  /-- What is written to the option, or else the next word if the program accepts it. -/
  | perhaps (accepts : String → Bool)

/-- The options of a program. -/
structure Options (κ : Type) where
  short : Char → Option (κ × Takes)
  long : String → Option (κ × Takes)

/-- A command line. -/
structure CommandLine (κ : Type) where
  options : List (κ × Option String)
  operands : List String

/-- What a word is: options, the last of which may still take the next word, an operand, or the end
of the options. -/
inductive Meaning (κ : Type) where
  | options (given : List (κ × Option String)) (pending : Option (κ × Takes))
  | operand
  | separator

section

variable {κ : Type}

/-- Letters that follow a dash. -/
def readLetters (o : Options κ) :
    List Char → Option (List (κ × Option String) × Option (κ × Takes))
  | [] => some ([], none)
  | c :: cs =>
      match o.short c with
      | none => none
      | some (k, .nothing) =>
          (readLetters o cs).map fun (given, pending) ↦ ((k, none) :: given, pending)
      | some (k, takes) =>
          if cs.isEmpty then some ([], some (k, takes))
          else some ([(k, some (String.ofList cs))], none)

/-- A name that follows two dashes. -/
def readName (o : Options κ) (cs : List Char) :
    Option (List (κ × Option String) × Option (κ × Takes)) :=
  let (name, value) := Text.splitOnce '=' cs
  match o.long (String.ofList name), value with
  | none, _ => none
  | some (k, .nothing), none => some ([(k, none)], none)
  | some (_, .nothing), some _ => none
  | some (k, takes), none => some ([], some (k, takes))
  | some (k, _), some value => some ([(k, some (String.ofList value))], none)

/-- One word. -/
def readWord (o : Options κ) (word : String) : Option (Meaning κ) :=
  match word.toList with
  | ['-', '-'] => some .separator
  | '-' :: '-' :: cs => (readName o cs).map fun (given, pending) ↦ .options given pending
  | '-' :: c :: cs => (readLetters o (c :: cs)).map fun (given, pending) ↦ .options given pending
  | _ => some .operand

/-- More options in front. -/
def CommandLine.push (given : List (κ × Option String)) (line : CommandLine κ) : CommandLine κ :=
  { line with options := given ++ line.options }

/-- The words of a command line, without the program's own name. -/
def parse (o : Options κ) : List String → Option (CommandLine κ)
  | [] => some ⟨[], []⟩
  | word :: words =>
      match readWord o word with
      | none => none
      | some .separator => some ⟨[], words⟩
      | some .operand =>
          (parse o words).map fun line ↦ { line with operands := word :: line.operands }
      | some (.options given none) => (parse o words).map (CommandLine.push given)
      | some (.options given (some (k, .nothing))) =>
          (parse o words).map (CommandLine.push (given ++ [(k, none)]))
      | some (.options given (some (k, .argument))) =>
          match words with
          | [] => none
          | arg :: words => (parse o words).map (CommandLine.push (given ++ [(k, some arg)]))
      | some (.options given (some (k, .perhaps accepts))) =>
          match words with
          | [] => some ⟨given ++ [(k, none)], []⟩
          | arg :: rest =>
              if accepts arg then (parse o rest).map (CommandLine.push (given ++ [(k, some arg)]))
              else (parse o (arg :: rest)).map (CommandLine.push (given ++ [(k, none)]))

/-! ## Words that were written for options -/

/-- Words, and the options that they were written for: each word is one option, followed by its
argument as a word of its own. -/
inductive Gives (o : Options κ) : List String → List (κ × Option String) → Prop
  | nil : Gives o [] []
  | flag {word : String} {k : κ} (h : readWord o word = some (.options [(k, none)] none))
      {words : List String} {options : List (κ × Option String)} (hwords : Gives o words options) :
      Gives o (word :: words) ((k, none) :: options)
  | argument {word : String} {k : κ}
      (h : readWord o word = some (.options [] (some (k, .argument)))) (arg : String)
      {words : List String} {options : List (κ × Option String)} (hwords : Gives o words options) :
      Gives o (word :: arg :: words) ((k, some arg) :: options)
  | accepted {word : String} {k : κ} {accepts : String → Bool}
      (h : readWord o word = some (.options [] (some (k, .perhaps accepts)))) {arg : String}
      (harg : accepts arg = true) {words : List String} {options : List (κ × Option String)}
      (hwords : Gives o words options) :
      Gives o (word :: arg :: words) ((k, some arg) :: options)

variable {o : Options κ} {word : String} {k : κ}

/-- A letter whose argument is still to come. -/
theorem readWord_letter {c : Char} (hword : word.toList = ['-', c]) (hc : c ≠ '-') {takes : Takes}
    (h : o.short c = some (k, takes)) (htakes : takes ≠ .nothing) :
    readWord o word = some (.options [] (some (k, takes))) := by
  have hletters : readLetters o [c] = some ([], some (k, takes)) := by
    rw [readLetters, h]
    cases takes with
    | nothing => exact absurd rfl htakes
    | argument | perhaps => rfl
  unfold readWord
  split
  · rename_i hdashes
    exact absurd (List.cons.inj (List.cons.inj (hword.symm.trans hdashes)).2).1 hc
  · rename_i cs _ hname
    exact absurd (List.cons.inj (List.cons.inj (hword.symm.trans hname)).2).1 hc
  · rename_i c' cs _ _ hcluster
    obtain ⟨rfl, rfl⟩ := List.cons.inj (List.cons.inj (hword.symm.trans hcluster)).2
    rw [hletters]
    rfl
  · rename_i hnot
    exact absurd hword (hnot c [])

/-- Two dashes and a name. -/
theorem readWord_dashes {cs : List Char} (hword : word.toList = '-' :: '-' :: cs) (hcs : cs ≠ []) :
    readWord o word =
      (readName o cs).map fun (given, pending) ↦ .options given pending := by
  unfold readWord
  split
  · rename_i hdashes
    exact absurd (List.cons.inj (List.cons.inj (hword.symm.trans hdashes)).2).2 hcs
  · rename_i cs' _ hname
    rw [(List.cons.inj (List.cons.inj (hword.symm.trans hname)).2).2]
  · rename_i c cs' _ hnot hcluster
    obtain ⟨rfl, -⟩ := List.cons.inj (List.cons.inj (hword.symm.trans hcluster)).2
    exact absurd rfl hnot
  · rename_i hnot
    exact absurd hword (hnot '-' cs)

/-- A name that nothing is written to. -/
theorem splitOnce_name {cs : List Char} (hequals : '=' ∉ cs) :
    Text.splitOnce '=' cs = (cs, none) := by
  rcases Text.splitOnce_spec '=' cs with ⟨hsplit, -⟩ | ⟨name, value, -, hcs, -⟩
  · exact hsplit
  · exact absurd (hcs ▸ List.mem_append_right name List.mem_cons_self) hequals

theorem readWord_flag {cs : List Char} (hword : word.toList = '-' :: '-' :: cs) (hcs : cs ≠ [])
    (hequals : '=' ∉ cs) (h : o.long (String.ofList cs) = some (k, .nothing)) :
    readWord o word = some (.options [(k, none)] none) := by
  rw [readWord_dashes hword hcs, readName, splitOnce_name hequals]
  dsimp only
  rw [h]
  rfl

theorem readWord_name {cs : List Char} (hword : word.toList = '-' :: '-' :: cs) (hcs : cs ≠ [])
    (hequals : '=' ∉ cs) {takes : Takes} (h : o.long (String.ofList cs) = some (k, takes))
    (htakes : takes ≠ .nothing) :
    readWord o word = some (.options [] (some (k, takes))) := by
  rw [readWord_dashes hword hcs, readName, splitOnce_name hequals]
  dsimp only
  rw [h]
  cases takes with
  | nothing => exact absurd rfl htakes
  | argument | perhaps => rfl

theorem Gives.append {words words' : List String} {options options' : List (κ × Option String)}
    (h : Gives o words options) (h' : Gives o words' options') :
    Gives o (words ++ words') (options ++ options') := by
  induction h with
  | nil => exact h'
  | flag hword _ ih => exact .flag hword ih
  | argument hword arg _ ih => exact .argument hword arg ih
  | accepted hword harg _ ih => exact .accepted hword harg ih

/-- **Words are read back** as the options that they were written for. -/
theorem parse_of_gives {words : List String} {options : List (κ × Option String)}
    (h : Gives o words options) : parse o words = some ⟨options, []⟩ := by
  induction h with
  | nil => rfl
  | flag hword _ ih =>
      rw [parse, hword]
      dsimp only
      rw [ih]
      rfl
  | argument hword arg _ ih =>
      rw [parse, hword]
      dsimp only
      rw [ih]
      rfl
  | accepted hword harg _ ih =>
      rw [parse, hword]
      dsimp only
      rw [if_pos harg, ih]
      rfl

end

end GetOpt

end Vaiexia.Lib

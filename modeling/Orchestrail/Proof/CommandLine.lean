import Orchestrail.Spec.Verification

/-!
# Which argument vectors a command line can say

`parse_typed_argv` accepts a quoted text and never a shell. `commandLine` writes every argument in
double quotes; what is read back is the vector itself, so that exactly the vectors with a direct
program and without NUL can be configured.
-/

namespace Orchestrail

open Text Outcome

/-! ## Writing a vector -/

/-- The character in double quotes. -/
def escapeArg (ch : Char) : List Char := if ch = '"' ∨ ch = '\\' then ['\\', ch] else [ch]

def quoteArg (arg : List Char) : List Char := '"' :: arg.flatMap escapeArg ++ ['"']

/-- Every argument in double quotes, with a space behind it. -/
def commandLine (argv : List (List Char)) : List Char :=
  argv.flatMap fun arg => quoteArg arg ++ [' ']

variable {argv : List (List Char)} {current arg rest : List Char} {started : Bool}

theorem readArgv_escapeArg (ch : Char) (tail : List Char) :
    readArgv argv current true (some .double) (escapeArg ch ++ tail) =
      readArgv argv (current ++ [ch]) true (some .double) tail := by
  unfold escapeArg
  split_ifs with hch
  · rw [List.cons_append, List.singleton_append, readArgv, if_pos hch]
  · obtain ⟨hquote, hslash⟩ := not_or.1 hch
    rw [List.singleton_append, readArgv, if_neg hquote]
    exact fun _ _ h => absurd h hslash

/-- Up to the closing quote the characters are read back. -/
theorem readArgv_escaped :
    readArgv argv current true (some .double) (arg.flatMap escapeArg ++ '"' :: rest) =
      readArgv argv (current ++ arg) true none rest := by
  induction arg generalizing current with
  | nil => simp [readArgv]
  | cons ch arg ih =>
    rw [List.flatMap_cons, List.append_assoc, readArgv_escapeArg, ih]
    simp

theorem readArgv_quoted :
    readArgv argv [] false none (quoteArg arg ++ ' ' :: rest) =
      readArgv (argv ++ [arg]) [] false none rest := by
  have hopen : quoteArg arg ++ ' ' :: rest =
      '"' :: (arg.flatMap escapeArg ++ '"' :: ' ' :: rest) := by simp [quoteArg]
  rw [hopen, readArgv, if_neg (by decide), if_pos rfl, readArgv_escaped, readArgv,
    if_neg (by decide), if_neg (by decide), if_pos (by decide), if_pos rfl, List.nil_append]

theorem readArgv_commandLine (more : List (List Char)) :
    readArgv argv [] false none (commandLine more) = .ok (argv ++ more) := by
  induction more generalizing argv with
  | nil => simp [commandLine, readArgv]
  | cons arg more ih =>
    have hline : commandLine (arg :: more) = quoteArg arg ++ ' ' :: commandLine more := by
      simp [commandLine]
    rw [hline, readArgv_quoted, ih]
    simp

/-! ## What is read -/

/-- The reader makes up no character. -/
theorem readArgv_mem {quote : Option ArgvQuote} {input : List Char} {out : List (List Char)}
    (h : readArgv argv current started quote input = .ok out) :
    ∀ arg ∈ out, ∀ ch ∈ arg, (∃ a ∈ argv, ch ∈ a) ∨ ch ∈ current ∨ ch ∈ input := by
  fun_induction readArgv argv current started quote input with
  | case1 => cases h
  | case2 argv current =>
    obtain rfl := Except.ok.inj h
    intro arg harg ch hch
    rcases List.mem_append.1 harg with harg | harg
    · exact .inl ⟨arg, harg, hch⟩
    · exact .inr (.inl (List.mem_singleton.1 harg ▸ hch))
  | case3 argv =>
    obtain rfl := Except.ok.inj h
    exact fun arg harg ch hch => .inl ⟨arg, harg, hch⟩
  | case4 | case5 | case6 | case7 | case8 | case9 | case10 | case11 | case12 | case13 | case15 =>
    rename_i ih
    intro arg harg ch hch
    have := ih h arg harg ch hch
    simp only [List.mem_append, List.mem_cons, List.not_mem_nil] at this ⊢
    grind
  | case14 => cases h

theorem mem_commandLine {ch : Char} (h : ch ∈ commandLine argv) :
    ch = '"' ∨ ch = '\\' ∨ ch = ' ' ∨ ∃ arg ∈ argv, ch ∈ arg := by
  simp only [commandLine, quoteArg, List.mem_flatMap, List.mem_append, List.mem_cons,
    List.not_mem_nil, or_false] at h
  obtain ⟨arg, harg, ((rfl | ⟨c, hc, hch⟩) | rfl) | rfl⟩ := h
  · exact .inl rfl
  · unfold escapeArg at hch
    split_ifs at hch
    · rcases List.mem_cons.1 hch with rfl | hch
      · exact .inr (.inl rfl)
      · exact .inr (.inr (.inr ⟨arg, harg, List.mem_singleton.1 hch ▸ hc⟩))
    · exact .inr (.inr (.inr ⟨arg, harg, List.mem_singleton.1 hch ▸ hc⟩))
  · exact .inl rfl
  · exact .inr (.inr (.inl rfl))

/-- A vector that names its executable directly, with no NUL in it. -/
def DirectArgv (argv : List (List Char)) : Prop :=
  (∃ program args, argv = program :: args ∧ validateDirectProgram program = .ok ()) ∧
    ∀ arg ∈ argv, '\x00' ∉ arg

theorem parseTypedArgv_eq_ok {command : String} :
    parseTypedArgv command = .ok argv ↔
      isBlank command = false ∧ contains command '\x00' = false ∧
        readArgv [] [] false none command.toList = .ok argv ∧
        ∃ program args, argv = program :: args ∧ validateDirectProgram program = .ok () := by
  simp only [parseTypedArgv, bind_eq_ok, demand_eq_ok]
  constructor
  · rintro ⟨_, ⟨hblank, hnul⟩, out, hread, h⟩
    cases out with
    | nil => cases h
    | cons program args =>
      simp only [bind_eq_ok] at h
      obtain ⟨u, hprogram, h⟩ := h
      obtain rfl := Except.ok.inj h
      exact ⟨hblank, hnul, hread, program, args, rfl, hprogram⟩
  · rintro ⟨hblank, hnul, hread, program, args, rfl, hprogram⟩
    refine ⟨(), ⟨hblank, hnul⟩, program :: args, hread, ?_⟩
    simp only [bind_eq_ok]
    exact ⟨(), hprogram, trivial⟩

/-- **The vectors a command line can say are the direct ones**, and the quoted text says each of
them. -/
theorem typed_argv (argv : List (List Char)) :
    ((∃ command, parseTypedArgv command = .ok argv) ↔ DirectArgv argv) ∧
      (DirectArgv argv → parseTypedArgv (String.ofList (commandLine argv)) = .ok argv) := by
  have hback : DirectArgv argv → parseTypedArgv (String.ofList (commandLine argv)) = .ok argv := by
    rintro ⟨⟨program, args, rfl, hprogram⟩, hnul⟩
    refine parseTypedArgv_eq_ok.2 ⟨?_, ?_, ?_, program, args, rfl, hprogram⟩
    · rw [isBlank, String.toList_ofList]
      refine List.all_eq_false.2 ⟨'"', ?_, by decide⟩
      simp [commandLine, quoteArg]
    · rw [contains, String.toList_ofList]
      refine Bool.eq_false_iff.2 fun hmem => ?_
      rcases mem_commandLine (List.contains_iff_mem.1 hmem) with h | h | h | ⟨arg, harg, h⟩
      · exact absurd h (by decide)
      · exact absurd h (by decide)
      · exact absurd h (by decide)
      · exact hnul arg harg h
    · rw [String.toList_ofList, readArgv_commandLine, List.nil_append]
  refine ⟨⟨?_, fun h => ⟨_, hback h⟩⟩, hback⟩
  rintro ⟨command, h⟩
  obtain ⟨-, hnul, hread, hprogram⟩ := parseTypedArgv_eq_ok.1 h
  refine ⟨hprogram, fun arg harg hch => ?_⟩
  rcases readArgv_mem hread arg harg _ hch with ⟨a, ha, -⟩ | hch | hch
  · cases ha
  · cases hch
  · rw [contains, List.contains_iff_mem.2 hch] at hnul
    cases hnul

example : parseTypedArgv "cargo test 'a b' \"c\\\"d\"" =
    .ok [['c', 'a', 'r', 'g', 'o'], ['t', 'e', 's', 't'], ['a', ' ', 'b'], ['c', '"', 'd']] := by
  decide +kernel

end Orchestrail

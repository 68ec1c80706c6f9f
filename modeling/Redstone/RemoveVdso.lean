import Redstone.ChildMemory
import Redstone.StepRuns

/-!
# Hiding the vDSO from a traced child

Before the child runs, `remove_vdso` looks on its initial stack for the auxiliary vector
entry of the vDSO and makes it one to ignore. It reads word after word, keys and values
alike, and `child::ptrace` takes a word that is negative as a signed number for an error.
Both loops are cut off by a fuel.
-/

namespace RemoveVdso

open MachineWords ByteWindows ChildMemory
open StepRuns (Ends ends_unique ends_some ends_always ends_round ends_bind)

def AT_NULL : U64 := 0
def AT_IGNORE : U64 := 1
def AT_SYSINFO_EHDR : U64 := 33
def EIO : Nat := 5

structure SystemError where
  errno : Nat
  what : String
deriving DecidableEq

/-- `child::ptrace`, given the result of the call and `errno` after it. -/
def ptrace (rc : U64) (errno : Nat) : Except SystemError U64 :=
  if rc.toInt < 0 then .error ⟨errno, "ptrace failed"⟩ else .ok rc

/-- A peek that succeeds sets `errno` to zero, whatever word it returns. -/
def peekData (m : Memory) (pos : U64) : Except SystemError U64 :=
  ptrace (peek m pos) (if Mapped m pos 8 then 0 else EIO)

def pokeData (m : Memory) (pos word : U64) : Except SystemError Memory :=
  (ptrace (if Mapped m pos 8 then 0 else -1) EIO).map fun _ => poke m pos word

/-- The first loop, which passes the arguments and the environment. -/
def skipNulls (m : Memory) :
    (fuel : Nat) → (i : Nat) → (pos : U64) → Option (Except SystemError U64)
  | 0, _, _ => none
  | fuel + 1, i, pos =>
    if i < 2 then
      match peekData m (pos + 8) with
      | .error e => some (.error e)
      | .ok v => skipNulls m fuel (if v = AT_NULL then i + 1 else i) (pos + 8)
    else some (.ok pos)

/-- The second loop. -/
def hideEhdr (m : Memory) : (fuel : Nat) → (pos : U64) → Option (Except SystemError Memory)
  | 0, _ => none
  | fuel + 1, pos =>
    match peekData m (pos + 8) with
    | .error e => some (.error e)
    | .ok v =>
      if v = AT_NULL then some (.ok m)
      else if v = AT_SYSINFO_EHDR then some (pokeData m (pos + 8) AT_IGNORE)
      else hideEhdr m fuel (pos + 8)

def removeVdso (rsp : U64) (m : Memory) (fuel : Nat) : Option (Except SystemError Memory) :=
  match ptrace rsp 0 with
  | .error e => some (.error e)
  | .ok pos => (skipNulls m fuel 0 pos).bind fun
    | .error e => some (.error e)
    | .ok pos => hideEhdr m fuel pos

/-! ## Words in memory -/

/-- The address of a word of the stack. -/
def wordAt (p : U64) (k : Nat) : U64 := p + BitVec.ofNat 64 (8 * k)

theorem wordAt_succ (p : U64) (k : Nat) : wordAt p k + 8 = wordAt p (k + 1) := by
  rw [wordAt, wordAt, Nat.mul_succ, BitVec.ofNat_add, ← BitVec.add_assoc]
  rfl

/-- The words lie one after another from `p` on. -/
structure Holds (m : Memory) (p : U64) (words : List U64) : Prop where
  fits : 8 * words.length ≤ 2 ^ 64
  there : ∀ k w, words[k]? = some w →
    window m (wordAt p k) 8 = (bytesOf w).map some

theorem peek_word {m : Memory} {p w : U64} (there : window m p 8 = (bytesOf w).map some) :
    peek m p = w :=
  bytesOf_injective (peek_mapped there)

theorem peekData_word {m : Memory} {p w : U64} (there : window m p 8 = (bytesOf w).map some) :
    peekData m p = ptrace w 0 := by
  rw [peekData, peek_word there, if_pos (mapped_of_window there)]

/-- The words in memory are determined by it. -/
theorem holds_unique {m : Memory} {p : U64} {words words' : List U64} (holds : Holds m p words)
    (holds' : Holds m p words') (same : words.length = words'.length) : words = words' := by
  apply List.ext_getElem?
  intro k
  by_cases inside : k < words.length
  · have here := holds.there k _ (List.getElem?_eq_getElem inside)
    have here' := holds'.there k _ (List.getElem?_eq_getElem (same ▸ inside))
    rw [List.getElem?_eq_getElem inside, List.getElem?_eq_getElem (same ▸ inside),
      ← peek_word here, ← peek_word here']
  · rw [List.getElem?_eq_none (Nat.le_of_not_lt inside),
      List.getElem?_eq_none (same ▸ Nat.le_of_not_lt inside)]

/-- A memory that holds the words and nothing else. -/
def image (p : U64) (words : List U64) : Memory :=
  overlay (fun _ => none) p ((words.flatMap bytesOf).map some)

theorem length_flatMap_bytesOf (words : List U64) :
    (words.flatMap bytesOf).length = 8 * words.length := by
  induction words with
  | nil => rfl
  | cons w rest ih =>
    rw [List.flatMap_cons, List.length_append, length_bytesOf, ih, List.length_cons]
    omega

theorem there_of_window {m : Memory} {p : U64} {words : List U64}
    (content : window m p (8 * words.length) = (words.flatMap bytesOf).map some) {k : Nat}
    {w : U64} (here : words[k]? = some w) :
    window m (wordAt p k) 8 = (bytesOf w).map some := by
  rw [wordAt]
  induction words generalizing p k with
  | nil => cases here
  | cons first rest ih =>
    have split : 8 * (first :: rest).length = 8 + 8 * rest.length := by
      rw [List.length_cons]
      omega
    rw [split, window_add, List.flatMap_cons, List.map_append] at content
    have eight : (window m p 8).length = ((bytesOf first).map some).length := by
      rw [length_window, List.length_map, length_bytesOf]
    obtain ⟨front, back⟩ := List.append_inj content eight
    cases k with
    | zero =>
      obtain rfl := Option.some.inj here
      rw [Nat.mul_zero, BitVec.add_zero]
      exact front
    | succ k =>
      have later := ih back here
      rwa [add_ofNat_add, Nat.add_comm, ← Nat.mul_succ] at later

theorem holds_image {p : U64} {words : List U64} (fits : 8 * words.length ≤ 2 ^ 64) :
    Holds (image p words) p words := by
  refine ⟨fits, fun k w here => there_of_window ?_ here⟩
  have size : ((words.flatMap bytesOf).map some).length = 8 * words.length := by
    rw [List.length_map, length_flatMap_bytesOf]
  rw [← size]
  exact window_overlay (size ▸ fits)

/-- A poke replaces one word and leaves the rest of the memory alone. -/
theorem holds_poke {m : Memory} {p : U64} {words : List U64} (holds : Holds m p words) {k : Nat}
    (inside : k < words.length) (word : U64) :
    pokeData m (wordAt p k) word = .ok (poke m (wordAt p k) word) ∧
      Holds (poke m (wordAt p k) word) p (words.set k word) ∧
      ∀ a, 8 * words.length ≤ (a - p).toNat → poke m (wordAt p k) word a = m a := by
  have fits := holds.fits
  have mapped := mapped_of_window (holds.there k _ (List.getElem?_eq_getElem inside))
  have eight : ((bytesOf word).map some).length = 8 := by
    rw [List.length_map, length_bytesOf]
  rw [pokeData, if_pos mapped, poke_mapped mapped rfl]
  refine ⟨rfl, ⟨by rwa [List.length_set], ?_⟩, ?_⟩
  · intro j w here
    obtain ⟨bound, _⟩ := List.getElem?_eq_some_iff.mp here
    rw [List.length_set] at bound
    rw [List.getElem?_set] at here
    by_cases same : k = j
    · subst same
      rw [if_pos rfl, if_pos inside] at here
      obtain rfl := Option.some.inj here
      have back := window_overlay (m := m) (p := wordAt p k)
        (show ((bytesOf word).map some).length ≤ 2 ^ 64 by rw [eight]; decide)
      rwa [eight] at back
    · rw [if_neg same] at here
      rw [wordAt, wordAt, window_overlay_apart (by omega) (by omega) (by omega)]
      exact holds.there j w here
  · intro a far
    refine overlay_off ?_
    rintro i hi rfl
    rw [wordAt, add_ofNat_add, offset_toNat p (by omega)] at far
    omega

/-! ## The first loop -/

/-- A word that `child::ptrace` takes for a word. -/
def Readable (w : U64) : Prop := 0 ≤ w.toInt

instance (w : U64) : Decidable (Readable w) := inferInstanceAs (Decidable (_ ≤ _))

def AllReadable (words : List U64) : Prop := ∀ w ∈ words, Readable w

instance (words : List U64) : Decidable (AllReadable words) := List.decidableBAll _ words

theorem allReadable_nil : AllReadable [] := List.forall_mem_nil _

theorem allReadable_cons (w : U64) (words : List U64) :
    AllReadable (w :: words) ↔ Readable w ∧ AllReadable words := List.forall_mem_cons

/-- What a word that is not readable is reported as. -/
def misread : SystemError := ⟨0, "ptrace failed"⟩

theorem ptrace_readable {w : U64} (readable : Readable w) (errno : Nat) :
    ptrace w errno = .ok w := if_neg (Int.not_lt.mpr readable)

theorem ptrace_unreadable {w : U64} (unreadable : ¬Readable w) : ptrace w 0 = .error misread :=
  if_pos (Int.not_le.mp unreadable)

/-- The word behind those passed. -/
theorem next_word {m : Memory} {p : U64} {front rest : List U64} {w : U64} {k : Nat}
    (holds : Holds m p (front ++ w :: rest)) (before : front.length = k + 1) :
    peekData m (wordAt p k + 8) = ptrace w 0 := by
  have here : (front ++ w :: rest)[k + 1]? = some w := by
    rw [← before, List.getElem?_append_right (Nat.le_refl _), Nat.sub_self]
    rfl
  rw [wordAt_succ]
  exact peekData_word (holds.there (k + 1) w here)

theorem skipNulls_round {m : Memory} {p w : U64} {i k : Nat} (below : i < 2)
    (next : peekData m (wordAt p k + 8) = ptrace w 0) (fuel : Nat) :
    skipNulls m (fuel + 1) i (wordAt p k) =
      if Readable w then skipNulls m fuel (if w = AT_NULL then i + 1 else i) (wordAt p (k + 1))
      else some (.error misread) := by
  conv_lhs => unfold skipNulls
  rw [if_pos below, next, ← wordAt_succ]
  by_cases readable : Readable w
  · rw [ptrace_readable readable, if_pos readable]
  · rw [ptrace_unreadable readable, if_neg readable]

/-- The loop passes a block and the null behind it if the words of the block are readable. -/
theorem skipNulls_block {m : Memory} {p : U64} {block rest : List U64} {i : Nat}
    (below : i < 2) (nonNull : ∀ w ∈ block, w ≠ AT_NULL) {r : Except SystemError U64} :
    ∀ {front : List U64} {k : Nat}, Holds m p (front ++ (block ++ AT_NULL :: rest)) →
      front.length = k + 1 →
      Ends (fun fuel => skipNulls m fuel (i + 1) (wordAt p (k + (block.length + 1)))) r →
      Ends (fun fuel => skipNulls m fuel i (wordAt p k))
        (if AllReadable block then r else .error misread) := by
  induction block with
  | nil =>
    intro front k holds before ends
    have null : Readable AT_NULL := by decide
    rw [if_pos allReadable_nil]
    refine ends_round rfl ?_ ends
    intro fuel
    rw [skipNulls_round below (next_word holds before), if_pos null, if_pos rfl]
    rfl
  | cons w block ih =>
    intro front k holds before ends
    have round := skipNulls_round below (next_word holds before)
    by_cases readable : Readable w
    · obtain ⟨some, others⟩ := List.forall_mem_cons.mp nonNull
      rw [List.length_cons, Nat.add_right_comm, ← Nat.add_assoc, Nat.add_right_comm] at ends
      have rest' := @ih others (front ++ [w]) (k + 1) (by rwa [List.append_assoc])
        (by rw [List.length_append, before]; rfl) ends
      simp only [allReadable_cons, readable, true_and]
      refine ends_round rfl ?_ rest'
      intro fuel
      rw [round, if_pos readable, if_neg some]
    · rw [if_neg fun all => readable ((allReadable_cons w block).mp all).1]
      refine ends_round rfl ?_ (ends_always _)
      intro fuel
      rw [round, if_neg readable]

/-! ## The second loop -/

/-- What the loop makes of the words behind the environment. -/
def hide : List U64 → Option (Except SystemError (List U64))
  | [] => none
  | v :: rest =>
    if Readable v then
      if v = AT_NULL then some (.ok (v :: rest))
      else if v = AT_SYSINFO_EHDR then some (.ok (AT_IGNORE :: rest))
      else (hide rest).map (Except.map (List.cons v))
    else some (.error misread)

/-- What the loop makes of a memory with the words `rest` behind the words `front`. -/
inductive Does (m : Memory) (p : U64) (front rest : List U64) :
    Except SystemError (List U64) → Except SystemError Memory → Prop
  | threw (e : SystemError) : Does m p front rest (.error e) (.error e)
  | ended {rest' : List U64} {after : Memory} (holds : Holds after p (front ++ rest'))
      (same : rest'.length = rest.length)
      (kept : ∀ a, 8 * (front ++ rest).length ≤ (a - p).toNat → after a = m a) :
      Does m p front rest (.ok rest') (.ok after)

theorem does_cons {m : Memory} {p v : U64} {front rest : List U64}
    {r : Except SystemError (List U64)} {run : Except SystemError Memory}
    (does : Does m p (front ++ [v]) rest r run) :
    Does m p front (v :: rest) (r.map (List.cons v)) run := by
  cases does with
  | threw e => exact .threw e
  | ended holds same kept =>
    rw [List.append_assoc] at holds kept
    exact .ended holds (congrArg Nat.succ same) kept

theorem hideEhdr_round {m : Memory} {p v : U64} {k : Nat}
    (next : peekData m (wordAt p k + 8) = ptrace v 0) (fuel : Nat) :
    hideEhdr m (fuel + 1) (wordAt p k) =
      if Readable v then
        if v = AT_NULL then some (.ok m)
        else if v = AT_SYSINFO_EHDR then some (pokeData m (wordAt p (k + 1)) AT_IGNORE)
        else hideEhdr m fuel (wordAt p (k + 1))
      else some (.error misread) := by
  conv_lhs => unfold hideEhdr
  rw [next, ← wordAt_succ]
  by_cases readable : Readable v
  · rw [ptrace_readable readable, if_pos readable]
  · rw [ptrace_unreadable readable, if_neg readable]

theorem hideEhdr_does {m : Memory} {p : U64} {rest : List U64} :
    ∀ {front : List U64} {k : Nat} {r : Except SystemError (List U64)},
      Holds m p (front ++ rest) → front.length = k + 1 → hide rest = some r →
      ∃ run, Does m p front rest r run ∧ Ends (fun fuel => hideEhdr m fuel (wordAt p k)) run := by
  induction rest with
  | nil =>
    intro front k r holds before hides
    cases hides
  | cons v rest ih =>
    intro front k r holds before hides
    have round := hideEhdr_round (next_word holds before)
    rw [hide] at hides
    by_cases readable : Readable v
    · simp only [if_pos readable] at hides round
      by_cases null : v = AT_NULL
      · simp only [if_pos null] at hides round
        obtain rfl := Option.some.inj hides
        have same : Does m p front (v :: rest) (.ok (v :: rest)) (.ok m) :=
          .ended holds rfl (fun _ _ => rfl)
        exact ⟨.ok m, same, ends_round rfl round (ends_always _)⟩
      · simp only [if_neg null] at hides round
        by_cases ehdr : v = AT_SYSINFO_EHDR
        · simp only [if_pos ehdr] at hides round
          obtain rfl := Option.some.inj hides
          have inside : k + 1 < (front ++ v :: rest).length := by
            rw [List.length_append, List.length_cons, before]
            omega
          obtain ⟨accepted, holds', kept⟩ := holds_poke holds inside AT_IGNORE
          rw [List.set_append_right _ _ (Nat.le_of_eq before), before, Nat.sub_self] at holds'
          simp only [accepted] at round
          exact ⟨.ok _, .ended holds' rfl kept, ends_round rfl round (ends_always _)⟩
        · simp only [if_neg ehdr] at hides round
          obtain ⟨r', hides', rfl⟩ := Option.map_eq_some_iff.mp hides
          obtain ⟨run, does, ends⟩ := @ih (front ++ [v]) (k + 1) r'
            (by rwa [List.append_assoc]) (by rw [List.length_append, before]; rfl) hides'
          exact ⟨run, does_cons does, ends_round rfl round ends⟩
    · simp only [if_neg readable] at hides round
      obtain rfl := Option.some.inj hides
      exact ⟨.error misread, .threw misread, ends_round rfl round (ends_always _)⟩

/-! ## Initial stacks -/

def auxWords : List (U64 × U64) → List U64
  | [] => []
  | (key, value) :: rest => key :: value :: auxWords rest

/-- The words that a program finds at its stack pointer; the last pair is not in `auxv`. -/
structure InitialStack where
  argc : U64
  argv : List U64
  envp : List U64
  auxv : List (U64 × U64)
  last : U64
  counted : argc.toNat = argv.length
  argvSet : ∀ w ∈ argv, w ≠ 0
  envpSet : ∀ w ∈ envp, w ≠ 0
  keysSet : ∀ pair ∈ auxv, pair.1 ≠ AT_NULL

/-- The words of a stack with an auxiliary vector in place of its own. -/
def InitialStack.wordsWith (s : InitialStack) (auxv : List (U64 × U64)) : List U64 :=
  s.argc :: (s.argv ++ 0 :: (s.envp ++ 0 :: (auxWords auxv ++ [AT_NULL, s.last])))

def InitialStack.words (s : InitialStack) : List U64 := s.wordsWith s.auxv

/-- The first entry of the vDSO made one to ignore. -/
def hideFirst : List (U64 × U64) → List (U64 × U64)
  | [] => []
  | (key, value) :: rest =>
    if key = AT_SYSINFO_EHDR then (AT_IGNORE, value) :: rest else (key, value) :: hideFirst rest

/-- The run ends without an error, the first entry of the vDSO is one to ignore, and all
other words are as before, on the stack and behind it. -/
def EditsEntry (rsp : U64) (m : Memory) (s : InitialStack) : Prop :=
  ∃ fuel after, removeVdso rsp m fuel = some (.ok after) ∧
    Holds after rsp (s.wordsWith (hideFirst s.auxv)) ∧
    ∀ a, 8 * s.words.length ≤ (a - rsp).toNat → after a = m a

/-- No pair is an entry of the vDSO. -/
def Entryless (auxv : List (U64 × U64)) : Prop := ∀ pair ∈ auxv, pair.1 ≠ AT_SYSINFO_EHDR

instance (auxv : List (U64 × U64)) : Decidable (Entryless auxv) := List.decidableBAll _ auxv

/-- No word up to the first entry of the vDSO is taken for something else: all are
readable, and no value is the key of that entry, nor null before it. -/
def Unmistaken : List (U64 × U64) → Prop
  | [] => True
  | (key, value) :: rest =>
    key = AT_SYSINFO_EHDR ∨ (Readable key ∧ Readable value ∧ value ≠ AT_SYSINFO_EHDR ∧
      if value = AT_NULL then Entryless rest else Unmistaken rest)

instance decidableUnmistaken : (auxv : List (U64 × U64)) → Decidable (Unmistaken auxv)
  | [] => isTrue trivial
  | (key, value) :: rest =>
    have := decidableUnmistaken rest
    inferInstanceAs (Decidable (key = AT_SYSINFO_EHDR ∨ (Readable key ∧ Readable value ∧
      value ≠ AT_SYSINFO_EHDR ∧ if value = AT_NULL then Entryless rest else Unmistaken rest)))

/-- The stack pointer and all words that are looked at can be told from errors. -/
structure Plain (rsp : U64) (s : InitialStack) : Prop where
  pointer : Readable rsp
  argv : AllReadable s.argv
  envp : AllReadable s.envp
  auxv : Unmistaken s.auxv

theorem hide_ends {words : List U64} (null : AT_NULL ∈ words) : ∃ r, hide words = some r := by
  induction words with
  | nil => cases null
  | cons v rest ih =>
    by_cases readable : Readable v
    · by_cases here : v = AT_NULL
      · exact ⟨_, by rw [hide, if_pos readable, if_pos here]⟩
      by_cases ehdr : v = AT_SYSINFO_EHDR
      · exact ⟨_, by rw [hide, if_pos readable, if_neg here, if_pos ehdr]⟩
      obtain ⟨r, later⟩ := ih ((List.mem_cons.mp null).resolve_left (Ne.symm here))
      exact ⟨_, by rw [hide, if_pos readable, if_neg here, if_neg ehdr, later, Option.map_some]⟩
    · exact ⟨_, by rw [hide, if_neg readable]⟩

/-- A word that is passed stays as it is. -/
theorem hide_passes {v : U64} (readable : Readable v) (null : v ≠ AT_NULL)
    (ehdr : v ≠ AT_SYSINFO_EHDR) (rest rest' : List U64) :
    hide (v :: rest) = some (.ok (v :: rest')) ↔ hide rest = some (.ok rest') := by
  rw [hide, if_pos readable, if_neg null, if_neg ehdr, Option.map_eq_some_iff]
  constructor
  · rintro ⟨r, hides, same⟩
    cases r with
    | error e => cases same
    | ok words => rw [hides, (List.cons.inj (Except.ok.inj same)).2]
  · intro hides
    exact ⟨.ok rest', hides, rfl⟩

theorem hide_unreadable {v : U64} (unreadable : ¬Readable v) (rest rest' : List U64) :
    hide (v :: rest) ≠ some (.ok rest') := by
  rw [hide, if_neg unreadable]
  exact nofun

theorem auxWords_injective : Function.Injective auxWords := by
  intro a
  induction a with
  | nil =>
    intro b same
    cases b with
    | nil => rfl
    | cons pair rest => cases same
  | cons pair rest ih =>
    intro b same
    cases b with
    | nil => cases same
    | cons pair' rest' =>
      obtain ⟨key, same⟩ := List.cons.inj same
      obtain ⟨value, same⟩ := List.cons.inj same
      rw [ih same, Prod.ext key value]

theorem length_hideFirst (auxv : List (U64 × U64)) :
    (auxWords (hideFirst auxv)).length = (auxWords auxv).length := by
  induction auxv with
  | nil => rfl
  | cons pair rest ih =>
    rw [hideFirst]
    split
    · rfl
    · rw [auxWords, auxWords, List.length_cons, List.length_cons, List.length_cons,
        List.length_cons, ih]

theorem hideFirst_eq_iff (auxv : List (U64 × U64)) :
    auxv = hideFirst auxv ↔ Entryless auxv := by
  induction auxv with
  | nil => exact iff_of_true rfl (List.forall_mem_nil _)
  | cons pair rest ih =>
    rw [hideFirst, Entryless, List.forall_mem_cons, ← Entryless]
    by_cases ehdr : pair.1 = AT_SYSINFO_EHDR
    · rw [if_pos ehdr]
      refine iff_of_false ?_ (fun others => others.1 ehdr)
      intro same
      have key : AT_SYSINFO_EHDR = AT_IGNORE :=
        ehdr.symm.trans (congrArg Prod.fst (List.cons.inj same).1)
      exact absurd key (by decide)
    · rw [if_neg ehdr, List.cons_inj_right, ih]
      exact (and_iff_right ehdr).symm

/-- The loop edits the first entry of the vDSO if it mistakes no word. -/
theorem hide_exact_iff {auxv : List (U64 × U64)} (keysSet : ∀ pair ∈ auxv, pair.1 ≠ AT_NULL)
    (last : U64) :
    hide (auxWords auxv ++ [AT_NULL, last]) =
        some (.ok (auxWords (hideFirst auxv) ++ [AT_NULL, last])) ↔ Unmistaken auxv := by
  induction auxv with
  | nil => exact iff_of_true rfl trivial
  | cons pair rest ih =>
    obtain ⟨key, value⟩ := pair
    obtain ⟨keySet, others⟩ := List.forall_mem_cons.mp keysSet
    rw [Unmistaken, hideFirst]
    by_cases ehdr : key = AT_SYSINFO_EHDR
    · refine iff_of_true ?_ (Or.inl ehdr)
      have readable : Readable key := ehdr ▸ by decide
      rw [if_pos ehdr, auxWords, List.cons_append, hide, if_pos readable, if_neg keySet,
        if_pos ehdr]
      rfl
    rw [if_neg ehdr, or_iff_right ehdr, auxWords, auxWords, List.cons_append, List.cons_append,
      List.cons_append, List.cons_append]
    by_cases readable : Readable key
    · rw [hide_passes readable keySet ehdr, and_iff_right readable]
      by_cases readable' : Readable value
      · rw [and_iff_right readable']
        by_cases null : value = AT_NULL
        · -- a null value ends the scan, whatever keys come behind it
          have ordinary : value ≠ AT_SYSINFO_EHDR := null ▸ by decide
          rw [if_pos null, and_iff_right ordinary, hide, if_pos readable', if_pos null,
            ← hideFirst_eq_iff, Option.some_inj, Except.ok.injEq, List.cons_inj_right,
            List.append_left_inj, auxWords_injective.eq_iff]
        · rw [if_neg null]
          by_cases ordinary : value = AT_SYSINFO_EHDR
          · refine iff_of_false ?_ (fun h => h.1 ordinary)
            rw [hide, if_pos readable', if_neg null, if_pos ordinary, Option.some_inj,
              Except.ok.injEq]
            intro same
            exact absurd ((List.cons.inj same).1.trans ordinary) (by decide)
          · rw [hide_passes readable' null ordinary, and_iff_right ordinary, ih others]
      · exact iff_of_false (hide_unreadable readable' _ _) (fun h => readable' h.1)
    · exact iff_of_false (hide_unreadable readable _ _) (fun h => readable h.1)

/-! ## Every run -/

/-- The words in front of the auxiliary vector. -/
def InitialStack.front (s : InitialStack) : List U64 :=
  s.argc :: (s.argv ++ 0 :: (s.envp ++ [0]))

/-- The auxiliary vector with the pair that ends it. -/
def InitialStack.tail (s : InitialStack) (auxv : List (U64 × U64)) : List U64 :=
  auxWords auxv ++ [AT_NULL, s.last]

theorem wordsWith_eq (s : InitialStack) (auxv : List (U64 × U64)) :
    s.wordsWith auxv = s.front ++ s.tail auxv := by
  simp only [InitialStack.wordsWith, InitialStack.front, InitialStack.tail, List.cons_append,
    List.append_assoc, List.nil_append]

/-- The index of the null behind the environment. -/
def InitialStack.secondNull (s : InitialStack) : Nat := s.argv.length + 1 + (s.envp.length + 1)

theorem length_front (s : InitialStack) : s.front.length = s.secondNull + 1 := by
  simp only [InitialStack.front, InitialStack.secondNull, List.length_cons, List.length_append,
    List.length_nil]
  omega

theorem skipNulls_done (m : Memory) (pos : U64) :
    Ends (fun fuel => skipNulls m fuel 2 pos) (.ok pos) :=
  ends_round rfl (fun _ => if_neg (Nat.lt_irrefl 2)) (ends_always _)

/-- The first loop ends at the null behind the environment. -/
theorem skipNulls_ends {m : Memory} {rsp : U64} {s : InitialStack} (holds : Holds m rsp s.words) :
    Ends (fun fuel => skipNulls m fuel 0 rsp)
      (if AllReadable s.argv ∧ AllReadable s.envp then
        .ok (wordAt rsp s.secondNull) else .error misread) := by
  have start : wordAt rsp 0 = rsp := BitVec.add_zero rsp
  have args : Holds m rsp ([s.argc] ++ (s.argv ++ AT_NULL ::
      (s.envp ++ AT_NULL :: s.tail s.auxv))) := holds
  have envs := args
  rw [List.append_cons, ← List.append_assoc] at envs
  have second := @skipNulls_block m rsp s.envp (s.tail s.auxv) 1 (by decide) s.envpSet _ _
    (s.argv.length + 1) envs (by simp only [List.length_append, List.length_singleton]; omega)
    (skipNulls_done m _)
  have first := @skipNulls_block m rsp s.argv _ 0 (by decide) s.argvSet
    (if AllReadable s.envp then .ok (wordAt rsp s.secondNull) else .error misread)
    _ 0 args rfl (by rwa [Nat.zero_add (s.argv.length + 1)])
  rw [start, ← ite_and] at first
  exact first

/-- Every run ends. It throws unless the words passed are readable, and then does what
`hide` does to the auxiliary vector. -/
theorem removeVdso_ends {m : Memory} {rsp : U64} {s : InitialStack} (holds : Holds m rsp s.words)
    {r : Except SystemError (List U64)} (hides : hide (s.tail s.auxv) = some r) :
    ∃ run, Ends (removeVdso rsp m) run ∧
      ((Readable rsp ∧ AllReadable s.argv ∧ AllReadable s.envp) ∧
          Does m rsp s.front (s.tail s.auxv) r run ∨
        ¬(Readable rsp ∧ AllReadable s.argv ∧ AllReadable s.envp) ∧
          run = .error misread) := by
  by_cases pointer : Readable rsp
  · have first := skipNulls_ends holds
    have enter : removeVdso rsp m = fun fuel => (skipNulls m fuel 0 rsp).bind fun
        | .error e => some (.error e)
        | .ok pos => hideEhdr m fuel pos := by
      funext fuel
      rw [removeVdso, ptrace_readable pointer]
    rw [enter, and_iff_right pointer]
    by_cases passed : AllReadable s.argv ∧ AllReadable s.envp
    · rw [if_pos passed] at first
      rw [InitialStack.words, wordsWith_eq] at holds
      obtain ⟨run, does, ends⟩ := hideEhdr_does holds (length_front s) hides
      exact ⟨run, ends_bind first ends, Or.inl ⟨passed, does⟩⟩
    · rw [if_neg passed] at first
      exact ⟨.error misread, ends_bind first (ends_always _), Or.inr ⟨passed, rfl⟩⟩
  · have enter : removeVdso rsp m = fun _ => some (.error misread) := by
      funext fuel
      rw [removeVdso, ptrace_unreadable pointer]
    rw [enter]
    exact ⟨.error misread, ends_always _, Or.inr ⟨fun h => pointer h.1, rfl⟩⟩

theorem plain_of_edits {m : Memory} {rsp : U64} {s : InitialStack} (holds : Holds m rsp s.words)
    (edits : EditsEntry rsp m s) : Plain rsp s := by
  obtain ⟨fuel, after, ended, holds', -⟩ := edits
  have null : AT_NULL ∈ s.tail s.auxv := List.mem_append_right _ List.mem_cons_self
  obtain ⟨r, hides⟩ := hide_ends null
  obtain ⟨run, ends, result⟩ := removeVdso_ends holds hides
  obtain rfl := ends_unique ends ended
  rcases result with ⟨⟨pointer, argv, envp⟩, does⟩ | ⟨-, error⟩
  · cases does with
    | @ended rest' _ found same _ =>
      -- the memory holds both what the loop made and what it should have made
      rw [wordsWith_eq] at holds'
      have sizes : (s.front ++ rest').length = (s.front ++ s.tail (hideFirst s.auxv)).length := by
        simp only [List.length_append, same, InitialStack.tail, length_hideFirst]
      obtain rfl := List.append_cancel_left (holds_unique found holds' sizes)
      exact ⟨pointer, argv, envp, (hide_exact_iff s.keysSet s.last).mp hides⟩
  · cases error

theorem edits_of_plain {m : Memory} {rsp : U64} {s : InitialStack} (holds : Holds m rsp s.words)
    (plain : Plain rsp s) : EditsEntry rsp m s := by
  have hides := (hide_exact_iff s.keysSet s.last).mpr plain.auxv
  obtain ⟨run, ends, result⟩ := removeVdso_ends holds hides
  rcases result with ⟨-, does⟩ | ⟨mistaken, -⟩
  · cases does with
    | @ended _ after found _ kept =>
      obtain ⟨fuel, ended⟩ := ends_some ends
      rw [← InitialStack.tail, ← wordsWith_eq] at found
      rw [← wordsWith_eq] at kept
      exact ⟨fuel, after, ended, found, kept⟩
  · exact absurd ⟨plain.pointer, plain.argv, plain.envp⟩ mistaken

/-- On every memory that holds an initial stack `remove_vdso` edits the first entry of the
vDSO and nothing else exactly if it takes no word for something else. -/
theorem edits_entry_iff {m : Memory} {rsp : U64} {s : InitialStack}
    (holds : Holds m rsp s.words) : EditsEntry rsp m s ↔ Plain rsp s :=
  ⟨plain_of_edits holds, edits_of_plain holds⟩

/-- The stack of a program without arguments and environment but its name. -/
def named (auxv : List (U64 × U64)) (keysSet : ∀ pair ∈ auxv, pair.1 ≠ AT_NULL) :
    InitialStack where
  argc := 1
  argv := [0x7ffe1000]
  envp := []
  auxv
  last := 0
  counted := rfl
  argvSet := List.forall_mem_singleton.mpr (by decide)
  envpSet := List.forall_mem_nil _
  keysSet

theorem length_auxWords (auxv : List (U64 × U64)) : (auxWords auxv).length = 2 * auxv.length := by
  induction auxv with
  | nil => rfl
  | cons pair rest ih =>
    rw [auxWords, List.length_cons, List.length_cons, ih, List.length_cons]
    omega

theorem holds_named {auxv : List (U64 × U64)} {keysSet : ∀ pair ∈ auxv, pair.1 ≠ AT_NULL}
    (short : auxv.length ≤ 64) (rsp : U64) :
    Holds (image rsp (named auxv keysSet).words) rsp (named auxv keysSet).words := by
  apply holds_image
  simp only [InitialStack.words, InitialStack.wordsWith, named, List.length_cons,
    List.length_append, List.length_nil, length_auxWords]
  omega

theorem named_mistaken {auxv : List (U64 × U64)} {keysSet : ∀ pair ∈ auxv, pair.1 ≠ AT_NULL}
    (short : auxv.length ≤ 64) (mistaken : ¬Unmistaken auxv) :
    ¬EditsEntry 0x7ffe0000 (image 0x7ffe0000 (named auxv keysSet).words) (named auxv keysSet) :=
  fun edits => mistaken (plain_of_edits (holds_named short _) edits).auxv

/-- The page size, the entry of the vDSO and a null value behind it. -/
theorem edits_entry_behind_page_size :
    ∃ s : InitialStack, s.auxv = [(6, 4096), (AT_SYSINFO_EHDR, 0x7fff0000), (23, 0)] ∧
      EditsEntry 0x7ffe0000 (image 0x7ffe0000 s.words) s := by
  have keysSet : ∀ pair ∈ [((6 : U64), (4096 : U64)), (AT_SYSINFO_EHDR, 0x7fff0000), (23, 0)],
      pair.1 ≠ AT_NULL := List.forall_mem_cons.mpr ⟨by decide, List.forall_mem_cons.mpr
        ⟨by decide, List.forall_mem_singleton.mpr (by decide)⟩⟩
  have unmistaken : Unmistaken [(6, 4096), (AT_SYSINFO_EHDR, 0x7fff0000), (23, 0)] := by decide
  refine ⟨named _ keysSet, rfl, (edits_entry_iff (holds_named (by decide) _)).mpr ?_⟩
  exact ⟨by decide, List.forall_mem_singleton.mpr (by decide), List.forall_mem_nil _, unmistaken⟩

/-- `AT_SECURE` with the value 0 in front of the entry, the user id 33, and capability
bits that are negative as a signed number. -/
theorem values_mistaken :
    ∃ s t u : InitialStack, s.auxv = [(23, 0), (AT_SYSINFO_EHDR, 0x7fff0000)] ∧
      t.auxv = [(11, AT_SYSINFO_EHDR)] ∧ u.auxv = [(16, 0x8000000000000000)] ∧
      ¬EditsEntry 0x7ffe0000 (image 0x7ffe0000 s.words) s ∧
      ¬EditsEntry 0x7ffe0000 (image 0x7ffe0000 t.words) t ∧
      ¬EditsEntry 0x7ffe0000 (image 0x7ffe0000 u.words) u := by
  have keys : ∀ pair ∈ [((23 : U64), (0 : U64)), (AT_SYSINFO_EHDR, 0x7fff0000)],
      pair.1 ≠ AT_NULL :=
    List.forall_mem_cons.mpr ⟨by decide, List.forall_mem_singleton.mpr (by decide)⟩
  refine ⟨named _ keys, named [(11, AT_SYSINFO_EHDR)] (List.forall_mem_singleton.mpr (by decide)),
    named [(16, 0x8000000000000000)] (List.forall_mem_singleton.mpr (by decide)),
    rfl, rfl, rfl, ?_, ?_, ?_⟩
  · exact named_mistaken (by decide) (by decide)
  · exact named_mistaken (by decide) (by decide)
  · exact named_mistaken (by decide) (by decide)

end RemoveVdso

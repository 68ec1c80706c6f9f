import Redstone.SocketAddr

/-!
# Socket addresses read from a traced program

`parse_addr` copies `dest_len` bytes of the program's memory into a local
`sockaddr_storage` and reads the address out of it. Bytes of the local variable that
the copy does not reach keep what the stack held before; they are a parameter here,
and so is `read_memory`, whose documented effect is a hypothesis. The host is x86-64,
so two-byte fields are little-endian.
-/

namespace ParseAddr

open MachineWords SocketAddr

def AF_UNIX : U16 := 1
def AF_INET : U16 := 2

/-- `sizeof(struct sockaddr_storage)`. -/
def storageSize : Nat := 128

/-- `sizeof(struct sockaddr_un)`. -/
def sockaddrUnSize : Nat := 110

/-- `offsetof(struct sockaddr_un, sun_path)`. -/
def sunPathOffset : Nat := 2

/-- Address and buffer to the returned number and the buffer afterwards. -/
abbrev ReadMemory := U64 → List Byte → Int × List Byte

/-- The bytes at and after the local variable, before the copy. -/
abbrev Stack := Nat → Byte

/-- `memcpy` over the local variable. -/
def fill (stack : Stack) (dest : List Byte) (i : Nat) : Byte := dest[i]?.getD (stack i)

def word (storage : Nat → Byte) (i : Nat) : U16 :=
  (storage i).setWidth 16 ||| (storage (i + 1)).setWidth 16 <<< 8

/-- The loop over `sun_path` with `left` indices to go, the next one being
`dest_len - left`. The index is used both as an offset into the structure (in the loop
bounds) and as an offset into `sun_path` (in the lookup). -/
def scanPath (sunPath : Nat → Byte) (destLen : Nat) :
    (left : Nat) → (path : List Byte) → Except Nat (List Byte)
  | 0, path => .ok path
  | left + 1, path =>
    let i := destLen - (left + 1)
    let c := sunPath i
    if c = 0 then .ok path
    else if i = destLen - 1 then .error EINVAL
    else scanPath sunPath destLen left (path ++ [c])

/-- The switch over `ss_family`, on the filled local variable. -/
def addrOf (storage : Nat → Byte) (destLen : Nat) : Except Nat Addr :=
  if word storage 0 = AF_INET then
    .ok (.ipv4 ⟨word storage 2, Vector.ofFn fun k => storage (4 + k)⟩)
  else if word storage 0 = AF_UNIX then
    let sunPath := fun i => storage (sunPathOffset + i)
    (scanPath sunPath destLen (destLen - sunPathOffset) []).map fun path => .unix ⟨path⟩
  else .error ENOTSUP

/-- An error is the value of the `std::error_code` the caller tests. -/
def parseAddr (readMemory : ReadMemory) (stack : Stack) (destAddr : U64) (destLen : Nat) :
    Except Nat Addr :=
  if storageSize < destLen ∨ destLen < 2 then .error EINVAL
  else
    let (res, dest) := readMemory destAddr (List.replicate destLen 0)
    if res < 0 then .error EFAULT
    else addrOf (fill stack dest) destLen

/-! ## What programs store -/

/-- A little-endian two-byte field. -/
def bytesOf (w : U16) : List Byte := [w.setWidth 8, (w >>> 8).setWidth 8]

/-- The memory a program fills for an address: a `sockaddr_in`, or a family, a path and
NUL padding up to `dest_len`. -/
inductive Encoded : Addr → List Byte → Prop where
  | ipv4 (addr : Ipv4Addr) (zero : List Byte) (tail : zero.length = 8) :
      Encoded (.ipv4 addr) (bytesOf AF_INET ++ bytesOf addr.port ++ addr.octets.toList ++ zero)
  | unix (p : List Byte) (padding : Nat) (nonempty : p ≠ []) (textual : 0 ∉ p)
      (short : p.length ≤ 107) (terminated : 1 ≤ padding)
      (fits : 2 + p.length + padding ≤ sockaddrUnSize) :
      Encoded (.unix ⟨p⟩) (bytesOf AF_UNIX ++ p ++ List.replicate padding 0)

/-- `read_memory` delivers the bytes stored at the address. -/
def Delivers (readMemory : ReadMemory) (destAddr : U64) (bytes : List Byte) : Prop :=
  ∀ buffer : List Byte, buffer.length = bytes.length →
    0 ≤ (readMemory destAddr buffer).1 ∧ (readMemory destAddr buffer).2 = bytes

theorem word_bytesOf (storage : Nat → Byte) (i : Nat) (w : U16)
    (low : storage i = w.setWidth 8) (high : storage (i + 1) = (w >>> 8).setWidth 8) :
    word storage i = w := by
  rw [word, low, high]
  ext k hk
  simp only [BitVec.getElem_or, BitVec.getElem_setWidth, BitVec.getLsbD_setWidth,
    BitVec.getElem_shiftLeft, BitVec.getLsbD_ushiftRight]
  by_cases first : k < 8
  · simp [first, BitVec.getLsbD_eq_getElem hk]
  · have back : 8 + (k - 8) = k := by omega
    have inside : k - 8 < 8 := by omega
    simp [first, inside, back, BitVec.getLsbD_eq_getElem hk]

theorem length_of_encoded {a : Addr} {bytes : List Byte} (encoded : Encoded a bytes) :
    4 ≤ bytes.length ∧ bytes.length ≤ sockaddrUnSize := by
  cases encoded with
  | ipv4 addr zero tail => simp [bytesOf, tail, sockaddrUnSize]
  | unix p padding nonempty textual short terminated fits =>
    have positive := List.length_pos_iff.mpr nonempty
    simp only [bytesOf, List.length_append, List.length_cons, List.length_nil,
      List.length_replicate]
    omega

/-- The length and read checks pass, so the switch sees the stored bytes. -/
theorem parseAddr_of_delivers {readMemory : ReadMemory} {destAddr : U64} {a : Addr}
    {bytes : List Byte} (stack : Stack) (encoded : Encoded a bytes)
    (delivers : Delivers readMemory destAddr bytes) :
    parseAddr readMemory stack destAddr bytes.length =
      addrOf (fill stack bytes) bytes.length := by
  obtain ⟨long, short⟩ := length_of_encoded encoded
  obtain ⟨read, content⟩ := delivers (List.replicate bytes.length 0) List.length_replicate
  have accepted : ¬(storageSize < bytes.length ∨ bytes.length < 2) := by
    rw [storageSize]
    rw [sockaddrUnSize] at short
    omega
  simp only [parseAddr, if_neg accepted, content, if_neg (Int.not_lt.mpr read)]

/-- A run of non-NUL characters before a NUL is what the scan pushes. -/
theorem scanPath_reads (sunPath : Nat → Byte) (destLen : Nat) (cs : List Byte) :
    ∀ (left : Nat) (path : List Byte), cs.length < left → left ≤ destLen →
      (∀ k c, cs[k]? = some c → sunPath (destLen - left + k) = c ∧ c ≠ 0) →
      sunPath (destLen - left + cs.length) = 0 →
      scanPath sunPath destLen left path = .ok (path ++ cs) := by
  induction cs with
  | nil =>
    intro left path room within stored stop
    cases left with
    | zero => omega
    | succ left =>
      have zero : sunPath (destLen - (left + 1)) = 0 := by simpa using stop
      simp [scanPath, zero]
  | cons c cs ih =>
    intro left path room within stored stop
    cases left with
    | zero => cases room
    | succ left =>
      simp only [List.length_cons] at room stop
      obtain ⟨here, text⟩ := stored 0 c rfl
      rw [Nat.add_zero] at here
      have inner : ¬destLen - (left + 1) = destLen - 1 := by omega
      have next : ∀ k, destLen - (left + 1) + (k + 1) = destLen - left + k := by
        intro k
        omega
      have rest := ih left (path ++ [c]) (by omega) (by omega)
        (fun k d found => by
          have later := stored (k + 1) d (by simpa using found)
          rwa [next k] at later)
        (by rwa [next cs.length] at stop)
      simp only [scanPath, here, if_neg text, if_neg inner, rest, List.append_assoc,
        List.singleton_append]

theorem fill_path (stack : Stack) (p : List Byte) (padding k : Nat) :
    fill stack (bytesOf AF_UNIX ++ p ++ List.replicate padding 0) (sunPathOffset + k) =
      if k < p.length then p.getD k 0
      else if k < p.length + padding then 0 else stack (sunPathOffset + k) := by
  have skip : (bytesOf AF_UNIX ++ p ++ List.replicate padding 0)[sunPathOffset + k]? =
      (p ++ List.replicate padding 0)[k]? := by
    rw [List.append_assoc, sunPathOffset, Nat.add_comm]
    rfl
  rw [fill, skip]
  by_cases inside : k < p.length
  · rw [if_pos inside, List.getElem?_append_left inside]
    simp [inside]
  · rw [if_neg inside, List.getElem?_append_right (Nat.le_of_not_lt inside),
      List.getElem?_replicate]
    by_cases zero : k < p.length + padding
    · rw [if_pos zero, if_pos (by omega)]
      rfl
    · rw [if_neg zero, if_neg (by omega)]
      rfl

theorem addrOf_unix (stack : Stack) (p : List Byte) (padding destLen : Nat) :
    addrOf (fill stack (bytesOf AF_UNIX ++ p ++ List.replicate padding 0)) destLen =
      (scanPath (fun i => fill stack (bytesOf AF_UNIX ++ p ++ List.replicate padding 0)
        (sunPathOffset + i)) destLen (destLen - sunPathOffset) []).map
          fun path => .unix ⟨path⟩ := by
  have family : word (fill stack (bytesOf AF_UNIX ++ p ++ List.replicate padding 0)) 0 =
      AF_UNIX := word_bytesOf _ 0 AF_UNIX rfl rfl
  rw [addrOf, family]
  rfl

theorem addrOf_ipv4 (stack : Stack) (addr : Ipv4Addr) (zero : List Byte) (destLen : Nat) :
    addrOf (fill stack (bytesOf AF_INET ++ bytesOf addr.port ++ addr.octets.toList ++ zero))
      destLen = .ok (.ipv4 addr) := by
  have family : word (fill stack (bytesOf AF_INET ++ bytesOf addr.port ++
      addr.octets.toList ++ zero)) 0 = AF_INET := word_bytesOf _ 0 AF_INET rfl rfl
  have port : word (fill stack (bytesOf AF_INET ++ bytesOf addr.port ++
      addr.octets.toList ++ zero)) 2 = addr.port := word_bytesOf _ 2 addr.port rfl rfl
  have octets : (Vector.ofFn fun k : Fin 4 => fill stack (bytesOf AF_INET ++
      bytesOf addr.port ++ addr.octets.toList ++ zero) (4 + k)) = addr.octets := by
    ext k hk
    have found : (bytesOf AF_INET ++ bytesOf addr.port ++ addr.octets.toList ++ zero)[4 + k]? =
        addr.octets.toList[k]? := by
      have inside : k < addr.octets.toList.length := by rwa [Vector.length_toList]
      rw [List.append_assoc, Nat.add_comm]
      exact List.getElem?_append_left inside
    rw [Vector.getElem_ofFn, fill, found]
    simp [hk]
  rw [addrOf, family, if_pos rfl, port, octets]

/-- The scan starts at the third byte of the path and stops at the padding. -/
theorem scan_long (stack : Stack) (p : List Byte) (padding : Nat) (textual : 0 ∉ p)
    (terminated : 1 ≤ padding) (long : 4 < 2 + p.length + padding) :
    scanPath (fun i => fill stack (bytesOf AF_UNIX ++ p ++ List.replicate padding 0)
      (sunPathOffset + i)) (2 + p.length + padding)
      (2 + p.length + padding - sunPathOffset) [] = .ok (p.drop 2) := by
  have start : 2 + p.length + padding - (2 + p.length + padding - sunPathOffset) = 2 := by
    rw [sunPathOffset]
    omega
  apply scanPath_reads
  · rw [List.length_drop, sunPathOffset]
    omega
  · exact Nat.sub_le _ _
  · intro k c found
    rw [start, fill_path]
    rw [List.getElem?_drop] at found
    obtain ⟨inside, value⟩ := List.getElem?_eq_some_iff.mp found
    rw [if_pos inside, List.getD_eq_getElem?_getD, found]
    refine ⟨rfl, ?_⟩
    rintro rfl
    exact textual (value ▸ List.getElem_mem inside)
  · rw [start, fill_path, if_neg (by rw [List.length_drop]; omega),
      if_pos (by rw [List.length_drop]; omega)]

/-- A one-byte path in four bytes of memory leaves the scan to the stack's bytes. -/
theorem scan_short (stack : Stack) (c : Byte) :
    scanPath (fun i => fill stack (bytesOf AF_UNIX ++ [c] ++ List.replicate 1 0)
      (sunPathOffset + i)) 4 (4 - sunPathOffset) [] =
      if stack 4 = 0 then .ok [] else if stack 5 = 0 then .ok [stack 4] else .error EINVAL := by
  have four : fill stack (bytesOf AF_UNIX ++ [c] ++ List.replicate 1 0) 4 = stack 4 := rfl
  have five : fill stack (bytesOf AF_UNIX ++ [c] ++ List.replicate 1 0) 5 = stack 5 := rfl
  simp only [sunPathOffset, scanPath, Nat.reduceAdd, Nat.reduceSub, four, five]
  by_cases first : stack 4 = 0
  · simp only [if_pos first]
  · by_cases second : stack 5 = 0
    · simp only [if_neg first, if_pos second]
      rfl
    · simp only [if_neg first, if_neg second]
      rfl

/-- When the code recovers an address: always for IPv4; for a path only if it has one byte,
occupies four bytes of memory, and the stack repeats it followed by a NUL. -/
def Recoverable (stack : Stack) (destLen : Nat) : Addr → Prop
  | .ipv4 _ => True
  | .unix u => destLen = 4 ∧ u.path = [stack 4] ∧ stack 5 = 0

/-- What is left of an address by a scan that starts two bytes into the path. -/
def withoutHead : Addr → Addr
  | .ipv4 a => .ipv4 a
  | .unix u => .unix ⟨u.path.drop 2⟩

theorem length_unix (p : List Byte) (padding : Nat) :
    (bytesOf AF_UNIX ++ p ++ List.replicate padding 0).length = 2 + p.length + padding := by
  rw [List.length_append, List.length_append, List.length_replicate]
  rfl

theorem parse_long {readMemory : ReadMemory} {destAddr : U64} {a : Addr} {bytes : List Byte}
    (stack : Stack) (encoded : Encoded a bytes) (delivers : Delivers readMemory destAddr bytes)
    (long : 4 < bytes.length) :
    parseAddr readMemory stack destAddr bytes.length = .ok (withoutHead a) := by
  rw [parseAddr_of_delivers stack encoded delivers]
  cases encoded with
  | ipv4 addr zero tail => exact addrOf_ipv4 stack addr zero _
  | unix p padding nonempty textual short terminated fits =>
    rw [length_unix] at long ⊢
    rw [addrOf_unix, scan_long stack p padding textual terminated long]
    rfl

theorem withoutHead_eq_iff (stack : Stack) {a : Addr} {bytes : List Byte}
    (encoded : Encoded a bytes) (long : 4 < bytes.length) :
    withoutHead a = a ↔ Recoverable stack bytes.length a := by
  cases encoded with
  | ipv4 addr zero tail => exact iff_of_true rfl trivial
  | unix p padding nonempty textual short terminated fits =>
    refine iff_of_false ?_ ?_
    · intro same
      have lengths : (p.drop 2).length = p.length :=
        congrArg List.length (UnixAddr.mk.inj (Addr.unix.inj same))
      have positive := List.length_pos_iff.mpr nonempty
      rw [List.length_drop] at lengths
      omega
    · rintro ⟨four, _, _⟩
      omega

theorem parse_short {readMemory : ReadMemory} {destAddr : U64} {a : Addr} {bytes : List Byte}
    (stack : Stack) (encoded : Encoded a bytes) (delivers : Delivers readMemory destAddr bytes)
    (short : ¬4 < bytes.length) :
    parseAddr readMemory stack destAddr bytes.length = .ok a ↔
      Recoverable stack bytes.length a := by
  have parsed := parseAddr_of_delivers stack encoded delivers
  cases encoded with
  | ipv4 addr zero tail =>
    rw [parsed, addrOf_ipv4]
    exact iff_of_true rfl trivial
  | unix p padding nonempty textual brief terminated fits =>
    have size := length_unix p padding
    have positive := List.length_pos_iff.mpr nonempty
    obtain ⟨c, rfl⟩ := List.length_eq_one_iff.mp (show p.length = 1 by omega)
    obtain rfl : padding = 1 := by
      rw [List.length_singleton] at size
      omega
    rw [parsed, addrOf_unix]
    change Except.map _ (scanPath _ 4 (4 - sunPathOffset) []) = _ ↔ _
    rw [scan_short]
    have text : c ≠ 0 := by
      rintro rfl
      exact textual (List.mem_singleton_self 0)
    by_cases first : stack 4 = 0
    · rw [if_pos first]
      refine iff_of_false ?_ ?_
      · intro same
        cases same
      · rintro ⟨_, same, _⟩
        exact text ((List.singleton_inj.mp same).trans first)
    · rw [if_neg first]
      by_cases second : stack 5 = 0
      · rw [if_pos second]
        constructor
        · intro same
          exact ⟨rfl, congrArg UnixAddr.path (Addr.unix.inj (Except.ok.inj same)).symm, second⟩
        · rintro ⟨_, same, _⟩
          exact congrArg (fun path => Except.ok (Addr.unix ⟨path⟩)) same.symm
      · rw [if_neg second]
        refine iff_of_false ?_ ?_
        · intro same
          cases same
        · rintro ⟨_, _, zero⟩
          exact second zero

/-- Parsing recovers an encoded address exactly when it is recoverable, and two addresses
in more than four bytes are told apart exactly when they differ after the first two bytes
of the path. -/
theorem parse_recovers_iff {readMemory : ReadMemory} {destAddr : U64} {a : Addr}
    {bytes : List Byte} (stack : Stack) (encoded : Encoded a bytes)
    (delivers : Delivers readMemory destAddr bytes) :
    (parseAddr readMemory stack destAddr bytes.length = .ok a ↔
      Recoverable stack bytes.length a) ∧
    ∀ (readOther : ReadMemory) (stack' : Stack) (otherAddr : U64) (b : Addr)
      (others : List Byte), Encoded b others → Delivers readOther otherAddr others →
      4 < bytes.length → 4 < others.length →
      (parseAddr readMemory stack destAddr bytes.length =
          parseAddr readOther stack' otherAddr others.length ↔
        withoutHead a = withoutHead b) := by
  constructor
  · by_cases long : 4 < bytes.length
    · rw [parse_long stack encoded delivers long, Except.ok.injEq]
      exact withoutHead_eq_iff stack encoded long
    · exact parse_short stack encoded delivers long
  · intro readOther stack' otherAddr b others encodedOther deliversOther long longOther
    rw [parse_long stack encoded delivers long,
      parse_long stack' encodedOther deliversOther longOther, Except.ok.injEq]

/-- A path in a whole zeroed `sockaddr_un`. -/
def stored (p : List Byte) : List Byte :=
  bytesOf AF_UNIX ++ p ++ List.replicate (108 - p.length) 0

theorem encoded_stored {p : List Byte} (nonempty : p ≠ []) (textual : 0 ∉ p)
    (short : p.length ≤ 107) : Encoded (.unix ⟨p⟩) (stored p) :=
  .unix p (108 - p.length) nonempty textual short (by omega) (by rw [sockaddrUnSize]; omega)

/-- The path `echo-file` of the demo. -/
def echoFile : List Byte := [0x65, 0x63, 0x68, 0x6f, 0x2d, 0x66, 0x69, 0x6c, 0x65]

/-- `echo-file` comes back as `ho-file`, and so does the path `/tho-file`. -/
theorem echo_file_collides :
    ∃ (readMemory : ReadMemory) (other : List Byte), other ≠ echoFile ∧
      Encoded (.unix ⟨echoFile⟩) (stored echoFile) ∧ Encoded (.unix ⟨other⟩) (stored other) ∧
      Delivers readMemory 0 (stored echoFile) ∧ Delivers readMemory 1 (stored other) ∧
      parseAddr readMemory (fun _ => 0) 0 110 ≠ .ok (.unix ⟨echoFile⟩) ∧
      parseAddr readMemory (fun _ => 0) 0 110 = parseAddr readMemory (fun _ => 0) 1 110 := by
  let other : List Byte := [0x2f, 0x74] ++ echoFile.drop 2
  let readMemory : ReadMemory := fun addr _ =>
    (0, stored (if addr = 0 then echoFile else other))
  have storedEcho : Encoded (.unix ⟨echoFile⟩) (stored echoFile) :=
    encoded_stored (by decide) (by decide) (by decide)
  have storedOther : Encoded (.unix ⟨other⟩) (stored other) :=
    encoded_stored (by decide) (by decide) (by decide)
  have deliversEcho : Delivers readMemory 0 (stored echoFile) :=
    fun _ _ => ⟨Int.le_refl 0, rfl⟩
  have deliversOther : Delivers readMemory 1 (stored other) := fun _ _ => ⟨Int.le_refl 0, rfl⟩
  have first : parseAddr readMemory (fun _ => 0) 0 110 = .ok (.unix ⟨echoFile.drop 2⟩) :=
    parse_long (fun _ => 0) storedEcho deliversEcho (by decide)
  have second : parseAddr readMemory (fun _ => 0) 1 110 = .ok (.unix ⟨echoFile.drop 2⟩) :=
    parse_long (fun _ => 0) storedOther deliversOther (by decide)
  refine ⟨readMemory, other, by decide, storedEcho, storedOther, deliversEcho, deliversOther,
    ?_, first.trans second.symm⟩
  rw [first]
  intro same
  exact absurd (UnixAddr.mk.inj (Addr.unix.inj (Except.ok.inj same))) (by decide)

/-- One character, a NUL and no more: recovered only because the stack repeats it. -/
theorem parse_recovers_by_luck :
    parseAddr (fun _ _ => (0, bytesOf AF_UNIX ++ [0x61] ++ List.replicate 1 0))
      (fun i => if i = 4 then 0x61 else 0) 0 4 = .ok (.unix ⟨[0x61]⟩) :=
  (parse_recovers_iff (fun i => if i = 4 then 0x61 else 0)
    (.unix [0x61] 1 (by decide) (by decide) (by decide) (by decide) (by decide))
    (fun _ _ => ⟨Int.le_refl 0, rfl⟩)).1.mpr ⟨rfl, rfl, rfl⟩

end ParseAddr

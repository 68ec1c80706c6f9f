/-!
# Machine words and error numbers

C++ integers of a fixed width are bit vectors, so conversions between signed and
unsigned types of one width are the identity and narrowing is `setWidth`. The
program only builds with `NDEBUG` (one assertion names an undeclared constant),
so an `assert` is a predicate on the state here and never a branch.
-/

namespace MachineWords

abbrev Byte := BitVec 8

abbrev U16 := BitVec 16

/-- `uint64_t`, `size_t` and `uintptr_t`. -/
abbrev U64 := BitVec 64

/-- `int64_t` and `long`; negative results are tested through `toInt`. -/
abbrev I64 := BitVec 64

/-- `int`. -/
abbrev CInt := BitVec 32

def EBADF : Nat := 9
def EFAULT : Nat := 14
def EINVAL : Nat := 22
def EMFILE : Nat := 24
def EBADFD : Nat := 77
def ENOTSOCK : Nat := 88
def ENOTSUP : Nat := 95
def EOPNOTSUPP : Nat := 95
def EAFNOSUPPORT : Nat := 97
def EADDRNOTAVAIL : Nat := 99
def ECONNREFUSED : Nat := 111
def EHOSTUNREACH : Nat := 113

/-- The result `-errno` in a signed type of width `w`. -/
def failure (w : Nat) (errno : Nat) : BitVec w := -BitVec.ofNat w errno

end MachineWords

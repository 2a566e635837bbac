import Mathlib.Data.Int.Notation

/-!
# Error numbers

The values that the functions return negated when they fail.
-/

namespace Futils

abbrev EPERM : ℤ := 1
abbrev ENOENT : ℤ := 2
abbrev EINTR : ℤ := 4
abbrev EIO : ℤ := 5
abbrev E2BIG : ℤ := 7
abbrev EAGAIN : ℤ := 11
abbrev ENOMEM : ℤ := 12
abbrev EEXIST : ℤ := 17
abbrev EINVAL : ℤ := 22
abbrev EPIPE : ℤ := 32
abbrev EPROTO : ℤ := 71
abbrev EOVERFLOW : ℤ := 75
abbrev EILSEQ : ℤ := 84
abbrev ETIMEDOUT : ℤ := 110
abbrev EINPROGRESS : ℤ := 115

end Futils

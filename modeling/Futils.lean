import Futils.Lib.Mem
import Futils.Lib.Base128
import Futils.Lib.Zigzag
import Futils.Varint.Exact
import Futils.Varint.Canonical
import Futils.Dynmbox.Refine
import Futils.Dynmbox.Runs
import Futils.Safew.Cycles
import Futils.Safew.Sound
import Futils.Safew.Abandoned
import Futils.Safew.Detect
import Futils.Hash.Order
import Futils.Hash.Ownership
import Futils.Hash.Walk
import Futils.Random.Unbiased
import Futils.Random.Reseed
import Futils.Random.Uniformity
import Futils.Random.Isolated
import Futils.Random.Backtracking
import Futils.Random.Reals
import Futils.Random.Shuffle
import Futils.Random.Contract
import Futils.Random.Canonical
import Futils.Random.Fetch
import Futils.Systime.Format
import Futils.Systime.Strict
import Futils.Systime.Tm
import Futils.Systime.MonthIndex
import Futils.Systime.Context
import Futils.Systime.Inside
import Futils.Mbox.Framing
import Futils.Mbox.History
import Futils.Fs.Tree
import Futils.Inotify.Deliver
import Futils.Resources.Runs
import Futils.Strings.Agree
import Futils.Timetools.Range
import Futils.Timetools.Convert
import Futils.Dynmbox.Deadline
import Futils.Dynmbox.Progress
import Futils.Dynmbox.Rest
import Futils.LinkedList.SafeWalks

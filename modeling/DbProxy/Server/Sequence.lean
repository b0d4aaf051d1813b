import Mathlib.Logic.Function.Basic
import DbProxy.Router.Value

/-!
# Global sequences

`MySQLSequence` (`proxy/sequence/mysql.go`) hands out ids from a window it fetched from the database:
`mycat_seq_nextval` answers `value,increment`, which stands for the ids behind `value` up to `value + increment`.
What `GetMasterConn`, `UseDB`, `Execute` and `GetString` make of one call is the parameter `reply`.  `NextSeq` runs
under the lock of the sequence, so the calls of all goroutines of a proxy follow each other; the calls of several
proxies meet only in the database.
-/

namespace DbProxy

/-- `MySQLSequence`, without the statement it sends: `curr` is the last id handed out, `max` the window's last. -/
structure MySQLSequence where
  seqName : String
  curr : Int := 0
  max : Int := 0
  deriving DecidableEq, Repr

namespace MySQLSequence

/-- `getSeqFromDB`.  The errors of `strconv.ParseInt` are dropped: a field that is no number counts as 0, one that is
too great as the greatest or the least integer. -/
def getSeqFromDB (s : MySQLSequence) (reply : Except Fail GoString) : Except Fail MySQLSequence := do
  let ret ← reply
  match ret.splitOn 44 with
  | [curr, incr] =>
    .ok { s with max := toInt64 ((parseInt curr).1 + (parseInt incr).1), curr := (parseInt curr).1 }
  | _ =>
    .error (.error ("invalid mycat sequence value " ++ s.seqName ++ " " ++
      String.ofList (ret.map fun b => Char.ofNat b.toNat)))

/-- `NextSeq`: what it returns, and the sequence it leaves. -/
def nextSeq (s : MySQLSequence) (reply : Except Fail GoString) : Except Fail Int × MySQLSequence :=
  match if s.curr ≥ s.max then s.getSeqFromDB reply else .ok s with
  | .error e => (.error e, s)
  | .ok s' => (.ok (toInt64 (s'.curr + 1)), { s' with curr := toInt64 (s'.curr + 1) })

end MySQLSequence

/-- Any number of proxies that use one sequence, and how often its database function was called. -/
structure SequenceUsers where
  proxies : Nat → MySQLSequence
  fetches : Nat := 0

namespace SequenceUsers

/-- Proxy `i` calls `NextSeq`; `db n` is the reply to the call of the database function number `n`. -/
def nextSeq (db : Nat → Except Fail GoString) (u : SequenceUsers) (i : Nat) : Except Fail Int × SequenceUsers :=
  (((u.proxies i).nextSeq (db u.fetches)).1,
    { proxies := Function.update u.proxies i ((u.proxies i).nextSeq (db u.fetches)).2
      fetches := if (u.proxies i).curr ≥ (u.proxies i).max then u.fetches + 1 else u.fetches })

/-- The ids returned without error when the proxies call `NextSeq` in the given order. -/
def ids (db : Nat → Except Fail GoString) (u : SequenceUsers) : List Nat → List Int
  | [] => []
  | i :: is => match u.nextSeq db i with
    | (.ok id, u') => id :: ids db u' is
    | (.error _, u') => ids db u' is

end SequenceUsers

end DbProxy

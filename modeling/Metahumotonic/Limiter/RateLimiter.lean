import Metahumotonic.Limiter.SortedSet

/-! The limiters: the window that a process keeps for itself (`ts/src/ports/RateLimiter.ts`),
the script that the TypeScript service runs in Redis (`ts/src/ports/RedisLimiter.ts`), and
the transaction that the Python service sends (`app/ratelimit.py`). -/
namespace Metahumotonic.Limiter

open Library

structure Policy where
  maxEvents : Nat
  windowSeconds : Nat
  maxEvents_pos : 1 ≤ maxEvents
  windowSeconds_pos : 1 ≤ windowSeconds

def Policy.windowMillis (p : Policy) : ℤ := p.windowSeconds * 1000

structure Decision where
  allowed : Bool
  retryAfterSeconds : ℤ
  deriving DecidableEq, Repr

/-- The whole seconds, at least one, until the oldest event leaves the window. -/
def retryAfter (oldest window now : ℤ) : ℤ := max 1 (-(-(oldest + window - now) / 1000))

/-- One check of a key, with the member under which Redis would record it. -/
structure Check where
  key : String
  now : ℤ
  member : String
  deriving DecidableEq, Repr

section InProcess

abbrev Hits := Table String (List ℤ)

def Hits.of (hits : Hits) (key : String) : List ℤ := (hits.get? key).getD []

/-- `makeInProcess`. -/
def inProcess (p : Policy) (hits : Hits) (check : Check) : Decision × Hits :=
  let cutoff := check.now - p.windowMillis
  let kept := (hits.of check.key).filter (cutoff ≤ ·)
  if p.maxEvents ≤ kept.length then
    let oldest := kept.headD check.now
    (⟨false, retryAfter oldest p.windowMillis check.now⟩, hits.set check.key kept)
  else (⟨true, 0⟩, hits.set check.key (kept ++ [check.now]))

end InProcess

section Redis

abbrev Redis := Table String SortedSet

def Redis.at (redis : Redis) (key : String) : SortedSet := (redis.get? key).getD .empty

/-- `SLIDING_WINDOW`, on the value of its key. -/
def slidingWindow (p : Policy) (z : SortedSet) (now : ℤ) (member : String) : Decision × SortedSet :=
  let z := (z.live now).zremrangebyscore none (now - p.windowMillis)
  if p.maxEvents ≤ z.zcard then
    let oldest := z.lowest.getD now
    (⟨false, retryAfter oldest p.windowMillis now⟩, z)
  else (⟨true, 0⟩, (z.zadd now member).pexpire now p.windowMillis)

/-- The transaction of `_allow_redis`, with the count that it returns. -/
def pipeline (p : Policy) (z : SortedSet) (now : ℤ) (member : String) : Nat × SortedSet :=
  let z := (z.live now).zremrangebyscore (some 0) (now - p.windowMillis)
  let z := z.zadd now member
  (z.zcard, z.expire now (p.windowSeconds + 1))

/-- The script run at the key of a check. -/
def scripted (p : Policy) (redis : Redis) (check : Check) : Decision × Redis :=
  let (decision, z) := slidingWindow p (redis.at check.key) check.now check.member
  (decision, redis.set check.key z)

end Redis

end Metahumotonic.Limiter

import QuotaService.Lib.Machine
import QuotaService.Lib.Tally
import QuotaService.Server.Events

/-! The two stats listeners, which count the tokens that dynamic buckets serve and the buckets that
are missing. One keeps its counts in memory; the other queues commands, which a batcher sends to
Redis in pipelines. The listeners are given the same events here, and the commands that have been
sent may reach Redis in any order. -/
namespace QuotaService.Stats
open Events Arith

structure BucketScores where
  hits : ℤ := 0
  misses : ℤ := 0
deriving DecidableEq

structure BucketScore where
  bucket : String
  score : ℤ
deriving DecidableEq

/-- What is counted. -/
inductive Kind
  | hits
  | misses
deriving DecidableEq

section Memory

structure NamespaceStats where
  hits : Tally String := ∅
  misses : Tally String := ∅

def NamespaceStats.counts (stats : NamespaceStats) : Kind → Tally String
  | .hits => stats.hits
  | .misses => stats.misses

structure MemoryListener where
  namespaces : AList fun _ : String => NamespaceStats

namespace MemoryListener
variable (l : MemoryListener)

def handleEvent (event : Event) : MemoryListener :=
  if event.dynamic = false then l
  else
    let stats := (l.namespaces.lookup event.namespace).getD {}
    match event.eventType with
    | .bucketMiss => ⟨l.namespaces.insert event.namespace
        { stats with misses := stats.misses.add .int64 event.bucketName 1 }⟩
    | .tokensServed => ⟨l.namespaces.insert event.namespace
        { stats with hits := stats.hits.add .int64 event.bucketName event.numTokens }⟩
    | _ => ⟨l.namespaces.insert event.namespace stats⟩

/-- `bucketScoreTop10`: what it returns depends on how the map is ranged over and sorted. -/
def bucketScoreTop10 (scoreMap : Tally String) (top : List BucketScore) : Prop :=
  Ranking.IsTop BucketScore.score 10 (scoreMap.entries.map fun e => ⟨e.1, e.2⟩) top

/-- The results that there may be. -/
def top (kind : Kind) («namespace» : String) (top : List BucketScore) : Prop :=
  match l.namespaces.lookup «namespace» with
  | none => top = []
  | some stats => bucketScoreTop10 (stats.counts kind) top

def topHits := l.top .hits

def topMisses := l.top .misses

def get («namespace» bucket : String) : BucketScores :=
  match l.namespaces.lookup «namespace» with
  | none => {}
  | some stats => ⟨(stats.hits.lookup bucket).getD 0, (stats.misses.lookup bucket).getD 0⟩

end MemoryListener

end Memory

section Redis

inductive Command
  | zIncrBy (key : String) (increment : ℤ) (member : String)
  | expireAt (key : String)
deriving DecidableEq

/-- The sorted sets of Redis. -/
abbrev Database := AList fun _ : String => SortedSet

def Database.set (db : Database) (key : String) : SortedSet := (db.lookup key).getD ∅

/-- A command takes effect. Nothing expires. -/
def Database.exec (db : Database) : Command → Database
  | .zIncrBy key increment member => db.insert key ((db.set key).zIncrBy increment member)
  | .expireAt _ => db

/-- The pipeline to be sent next, and the channel of the batcher. -/
structure RedisListener where
  pipe : List Command
  queuedUpdates : ℕ
  notifyBatcher : Bool

def statsNamespace (key «namespace» : String) : String := "stats:" ++ «namespace» ++ ":" ++ key

def Kind.key : Kind → String
  | .hits => "hits"
  | .misses => "misses"

def RedisListener.queueStatsUpdate (l : RedisListener) («namespace» : String) (numTokens : ℤ)
    (bucket : String) : RedisListener where
  pipe := l.pipe ++ [.zIncrBy «namespace» (float64.wrap numTokens) bucket, .expireAt «namespace»]
  queuedUpdates := l.queuedUpdates + 1
  notifyBatcher := true

def RedisListener.handleEvent (l : RedisListener) (event : Event) : RedisListener :=
  if event.dynamic = false then l
  else match event.eventType with
    | .bucketMiss => l.queueStatsUpdate (statsNamespace "misses" event.namespace) 1 event.bucketName
    | .tokensServed =>
      l.queueStatsUpdate (statsNamespace "hits" event.namespace) event.numTokens event.bucketName
    | _ => l

def redisTopList (db : Database) (key : String) : List BucketScore :=
  ((db.set key).zRevRangeWithScores 0 10).map fun item => ⟨item.1, int64.wrap item.2⟩

def redisTop (db : Database) (kind : Kind) («namespace» : String) : List BucketScore :=
  redisTopList db (statsNamespace kind.key «namespace»)

def redisTopHits (db : Database) («namespace» : String) : List BucketScore :=
  redisTop db .hits «namespace»

def redisTopMisses (db : Database) («namespace» : String) : List BucketScore :=
  redisTop db .misses «namespace»

/-- A member that there is not has no score, and the value of the result is zero. -/
def redisGet (db : Database) («namespace» bucket : String) : BucketScores where
  hits := int64.wrap (((db.set (statsNamespace "hits" «namespace»)).zScore bucket).getD 0)
  misses := int64.wrap (((db.set (statsNamespace "misses" «namespace»)).zScore bucket).getD 0)

end Redis

/-- The listeners, the commands that have been sent but not executed, and the events so far. -/
structure State where
  memory : MemoryListener
  redis : RedisListener
  sent : List Command
  db : Database
  events : List Event

def start : State := ⟨⟨∅⟩, ⟨[], 0, false⟩, [], ∅, []⟩

/-- `submitBatch` of what is queued. -/
def State.submit (s : State) : State :=
  { s with
    sent := s.sent ++ s.redis.pipe
    redis := { s.redis with pipe := [], queuedUpdates := 0 } }

/-- An event comes in, the batcher's deadline passes or its channel wakes it, a command that has been
sent is executed. -/
inductive Action
  | handle (event : Event)
  | deadline
  | notified
  | exec (n : ℕ)

def step (batchSize : ℤ) (s : State) : Action → Option State
  | .handle event => some { s with
      memory := s.memory.handleEvent event
      redis := s.redis.handleEvent event
      events := s.events ++ [event] }
  | .deadline => if s.redis.queuedUpdates = 0 then some s else some s.submit
  | .notified =>
    if s.redis.notifyBatcher = true then
      if batchSize ≤ s.redis.queuedUpdates then
        some { s with redis := { s.redis with notifyBatcher := false } }.submit
      else some { s with redis := { s.redis with notifyBatcher := false } }
    else none
  | .exec n =>
    (s.sent[n]?).map fun command =>
      { s with sent := s.sent.eraseIdx n, db := s.db.exec command }

/-- All that has been queued has been executed. -/
def Quiescent (s : State) : Prop := s.redis.pipe = [] ∧ s.sent = []

instance (s : State) : Decidable (Quiescent s) := inferInstanceAs (Decidable (_ ∧ _))

end QuotaService.Stats

import KafkaCharm.Lib.Dict
import KafkaCharm.Lib.Integer

/-! `ControllerManager.quorum_status` reads the replication table of `kafka-metadata-quorum`. A query
that fails gives the same empty map as a table without rows. -/

namespace KafkaCharm

open PyText

/-- `KRAFT_NODE_ID_OFFSET`. -/
def kraftNodeIdOffset : Int := 100

/-- `KRaftUnitStatus`. -/
inductive KRaftUnitStatus where
  | leader
  | follower
  | observer
  deriving DecidableEq, Repr

namespace KRaftUnitStatus

def leaderText : Str := "Leader"
def followerText : Str := "Follower"
def observerText : Str := "Observer"

def ofText (s : Str) : Option KRaftUnitStatus :=
  if s = leaderText then some .leader
  else if s = followerText then some .follower
  else if s = observerText then some .observer
  else none

end KRaftUnitStatus

/-- `KRaftQuorumInfo`. -/
structure KRaftQuorumInfo where
  directoryId : Str
  lag : Int
  status : KRaftUnitStatus
  deriving DecidableEq, Repr

/-- `ControllerManager._parse_lag_col`, of a column that was stripped. -/
def parseLagCol (s : Str) : Int := (intLiteral s).getD (-1)

/-- One line of the table; `none` where a column is missing or cannot be read. -/
def parseQuorumLine (line : Str) : Option (Int × KRaftQuorumInfo) := do
  let fields := (line.splitOn '\t').map strip
  let directoryId ← fields[1]?
  let lag ← fields[3]?
  let status ← KRaftUnitStatus.ofText (← fields[6]?)
  let nodeId ← parseInt (← fields[0]?)
  return (nodeId, ⟨directoryId, parseLagCol lag, status⟩)

/-- How the query ends: no controller that answers, a failing command, or its output. -/
inductive QuorumQuery where
  | unreachable
  | failed
  | listing (output : Str)
  deriving DecidableEq, Repr

/-- The entries of a listing. -/
def parseQuorum (output : Str) : List (Int × KRaftQuorumInfo) :=
  ((output.splitOn '\n').filterMap parseQuorumLine).foldl (fun d e => Dict.set d e.1 e.2) []

/-- `ControllerManager.quorum_status`. -/
def quorumStatus : QuorumQuery → List (Int × KRaftQuorumInfo)
  | .unreachable => []
  | .failed => []
  | .listing output => parseQuorum output

/-- `ControllerManager.online_brokers`. -/
def onlineBrokers (query : QuorumQuery) : List Int :=
  (Dict.keys (quorumStatus query)).filter (kraftNodeIdOffset ≤ ·)

/-- `ControllerManager.departing_brokers`. -/
def departingBrokers (query : QuorumQuery) (activeBrokersOnRelation : List Int) : List Int :=
  if onlineBrokers query = [] then []
  else (onlineBrokers query).filter (· ∉ activeBrokersOnRelation)

/-- A successful listing that does not contain the id. -/
def KnownOffline (query : QuorumQuery) (id : Int) : Prop :=
  ∃ output, query = .listing output ∧ id ∉ Dict.keys (parseQuorum output)

theorem mem_onlineBrokers {query : QuorumQuery} {id : Int} :
    id ∈ onlineBrokers query ↔
      kraftNodeIdOffset ≤ id ∧ ∃ output, query = .listing output ∧
        id ∈ Dict.keys (parseQuorum output) := by
  unfold onlineBrokers
  rw [List.mem_filter, decide_eq_true_eq, and_comm]
  cases query with
  | unreachable => simp [quorumStatus, Dict.keys]
  | failed => simp [quorumStatus, Dict.keys]
  | listing output => simp [quorumStatus]

end KafkaCharm

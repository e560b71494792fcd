/-
  File:      Flour/DistKv/Protocol.lean
  Subject:   The wire types of `src/distkv/protocol.rs`: identifiers, the object states, and the
             requests and responses of the Master.

  Worker ids and object keys are the source's strings. A put id and a lease id are UUIDs; where
  the source draws one (`Uuid::new_v4`), the model takes the drawn id as an argument. Byte
  counts, generations, epochs and clock readings are natural numbers; generations and epochs
  are counted up from 1, and are taken to stay below 2^64.
-/
import Mathlib.Algebra.Group.Nat.Defs

namespace Flour.DistKv

abbrev WorkerId := String
abbrev ObjectKey := String
/-- A 128-bit UUID. -/
abbrev Uuid := BitVec 128
abbrev PutId := Uuid
abbrev LeaseId := Uuid

/-- `u64::MAX`. -/
def u64Max : ℕ := 2 ^ 64 - 1

/-- Lifecycle state of an object as the Master tracks it; absence is the absence of an entry. -/
inductive ObjectState where
  | writing
  | complete
  | failed
  | removed
  deriving DecidableEq, Repr

/-- The `Debug` rendering of an object state. -/
def ObjectState.debug : ObjectState → String
  | .writing => "Writing"
  | .complete => "Complete"
  | .failed => "Failed"
  | .removed => "Removed"

structure PutStartRequest where
  key : ObjectKey
  sizeBytes : ℕ
  preferredWorkerId : Option WorkerId
  deriving DecidableEq, Repr

structure PutStartResponse where
  putId : PutId
  workerId : WorkerId
  workerAddr : String
  objectGeneration : ℕ
  deriving DecidableEq, Repr

structure PutCommitRequest where
  key : ObjectKey
  putId : PutId
  deriving DecidableEq, Repr

structure GetRouteResponse where
  key : ObjectKey
  workerId : WorkerId
  workerAddr : String
  objectGeneration : ℕ
  leaseId : LeaseId
  leaseExpiresMs : ℕ
  deriving DecidableEq, Repr

end Flour.DistKv

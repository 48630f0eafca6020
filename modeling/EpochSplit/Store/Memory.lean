import EpochSplit.Store.Access
/-!
# Stores in memory

A store that is kept in memory only.  It counts what is done to it, and it can be told to refuse
commits from some point on.
-/

namespace EpochSplit

/-- A store in memory. -/
structure MemoryStore where
  contents : Contents := ∅
  /-- The number of batches taken. -/
  commits : Nat := 0
  /-- How many of them were durable. -/
  durable : Nat := 0
  compactions : Nat := 0
  closes : Nat := 0
  /-- The number of the first commit that is refused, if one is. -/
  refusal : Option Nat := none

namespace MemoryStore

/-- Writes a single pair outside of any batch. -/
def put (s : MemoryStore) (e : Entry) : MemoryStore :=
  { s with contents := s.contents.insert e.1 e.2 }

/-- Takes `commits` batches in all and refuses the others.  The count of commits has 64 bits. -/
def refuseAfter (s : MemoryStore) (commits : Nat) : MemoryStore :=
  { s with refusal := some (min (commits + 1) (UInt64.size - 1)) }

/-- Whether the next commit is refused. -/
def refuses (s : MemoryStore) : Bool :=
  s.refusal.any (· ≤ s.commits + 1)

/-- Takes a batch. -/
def commit (durable : Bool) (batch : List Entry) (s : MemoryStore) :
    Except StoreFault Unit × MemoryStore :=
  if s.refuses then (.error (.commit batch.length "commit limit reached"), s)
  else
    (.ok (), { s with
      contents := s.contents.overlay batch
      commits := s.commits + 1
      durable := if durable then s.durable + 1 else s.durable })

/-- A batch is written as a whole, or not at all where it is refused. -/
theorem contents_commit (durable : Bool) (batch : List Entry) (s : MemoryStore) :
    (s.commit durable batch).2.contents =
      if s.refuses then s.contents else s.contents.overlay batch := by
  unfold commit
  split <;> rfl

/-- Counts a compaction; there is no unused room in memory. -/
def compact (s : MemoryStore) : MemoryStore :=
  { s with compactions := s.compactions + 1 }

/-- Counts that the store was given back. -/
def close (s : MemoryStore) : MemoryStore :=
  { s with closes := s.closes + 1 }

/-- The store as one that is read. -/
def source (s : MemoryStore) : Source := .ofContents s.contents

/-- A world that is a single store, as one that is written. -/
def target : Target MemoryStore where
  commit := commit
  compact s := (.ok (), s.compact)
  close s := (.ok (), s.close)

end MemoryStore

end EpochSplit

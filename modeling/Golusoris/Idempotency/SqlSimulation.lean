import Golusoris.Idempotency.SqlStore

/-!
# Statements against operations

`Mirrors` reads a table as a `MemoryStore`. For each statement that decides a
call this module shows that, on the table it finds, the sequential operation
gives the same answer and leaves the store that mirrors the new table.
-/

namespace Golusoris.Idempotency

open Lib
open MemoryStore (answer claimAs commit sweepLoop)

/-- A row as the entry it stands for. -/
def Row.entry (row : Row) : MemEntry where
  state := if row.state = rowInFlight then .inFlight else .completed
  token := row.token
  fingerprint := row.fingerprint
  resp := {
    statusCode := row.statusCode
    header := decodeHeader row.header
    body := row.body }
  expiresAt := row.expiresAt * 1000

def Table.Mirrors (table : Table) (store : MemoryStore) : Prop :=
  ∀ key, store.entries.lookup key = (table.lookup key).map Row.entry

/-- Every row is in one of the two states. -/
def Table.WellFormed (table : Table) : Prop :=
  ∀ key row, table.lookup key = some row → row.state = rowInFlight ∨ row.state = rowCompleted

/-- A clock reading at the resolution of the table. -/
def reading (time : Time) : Time := timestamptz time * 1000

theorem reading_add {ttl : Duration} (whole : 1000 ∣ ttl) (now : Time) :
    timestamptz (now + ttl) * 1000 = reading now + ttl := by
  obtain ⟨count, rfl⟩ := whole
  rw [reading, timestamptz, timestamptz, Int.add_mul_ediv_left _ _ (by decide), Int.add_mul,
    Int.mul_comm count]

theorem Row.expired_entry (row : Row) (now : Time) :
    row.entry.Expired (reading now) ↔ row.expiresAt ≤ timestamptz now :=
  Int.mul_le_mul_right (by decide)

variable {table next : Table} {store : MemoryStore} {now : Time}
variable {key token fingerprint : String} {ttl : Duration}

namespace Table

variable (mirrors : table.Mirrors store)

include mirrors in
theorem Mirrors.live (now : Time) (key : String) :
    store.live (reading now) key =
      ((table.lookup key).filter fun row => timestamptz now < row.expiresAt).map Row.entry := by
  rw [MemoryStore.live, mirrors]
  cases table.lookup key with
  | none => rfl
  | some row =>
    have same : (¬ row.entry.Expired (reading now)) ↔ timestamptz now < row.expiresAt := by
      rw [row.expired_entry, not_le]
    by_cases live : timestamptz now < row.expiresAt
    · simp [Option.filter, live, same.mpr live]
    · simp [Option.filter, live, not_not.mp (mt same.mp live)]

include mirrors in
theorem Mirrors.insert (row : Row) (sequence : UInt64) :
    Mirrors (table.insert key row)
      { entries := store.entries.insert key row.entry, sequence } := by
  intro other
  by_cases same : other = key
  · subst same
    simp
  · simp [Finmap.lookup_insert_of_ne, same, mirrors other]

include mirrors in
theorem Mirrors.erase (sequence : UInt64) :
    Mirrors (table.erase key) { entries := store.entries.erase key, sequence } := by
  intro other
  by_cases same : other = key
  · subst same
    simp
  · simp [Finmap.lookup_erase_ne, same, mirrors other]

include mirrors in
theorem Mirrors.mem_iff (key : String) : key ∈ store.entries ↔ key ∈ table := by
  rw [Finmap.mem_iff, Finmap.mem_iff, mirrors key]
  cases table.lookup key <;> simp

variable {ctx : Context}

include mirrors in
/-- A reservation that succeeds is a granted claim. -/
theorem reserve_acquired (valid : validateClaim ctx key fingerprint ttl = .ok ())
    (whole : 1000 ∣ ttl)
    (reserved : table.reserve key token fingerprint now (now + ttl) = .ok (true, next)) :
    ∃ after, store.claimAs token ctx (reading now) key fingerprint ttl =
        (.ok { state := .acquired, token }, after) ∧ next.Mirrors after ∧
      ∃ expiresAt, next = table.insert key
        { state := rowInFlight, token, fingerprint, expiresAt } := by
  have free : store.live (reading now) key = none ∧ next = table.insert key
      { state := rowInFlight, token, fingerprint, expiresAt := timestamptz (now + ttl) } := by
    rw [mirrors.live]
    unfold reserve at reserved
    split at reserved
    · cases reserved
    · cases found : table.lookup key with
      | none =>
        simp only [found, Except.ok.injEq, Prod.mk.injEq, true_and] at reserved
        exact ⟨rfl, reserved.symm⟩
      | some old =>
        simp only [found] at reserved
        split at reserved
        · rename_i expired
          simp only [Except.ok.injEq, Prod.mk.injEq, true_and] at reserved
          exact ⟨by simp [Option.filter, not_lt.mpr expired], reserved.symm⟩
        · cases reserved
  obtain ⟨free, rfl⟩ := free
  refine ⟨_, by rw [claimAs, valid, free], ?_, _, rfl⟩
  intro other
  by_cases same : other = key
  · subst same
    simp [Row.entry, reading_add whole, decodeHeader, rowInFlight]
  · simp [Finmap.lookup_insert_of_ne, Finmap.lookup_erase_ne, same, mirrors other]

theorem reserve_refused (refused : table.reserve key token fingerprint now (now + ttl) =
    .ok (false, next)) : next = table := by
  unfold reserve at refused
  split at refused
  · cases refused
  · split at refused
    · cases refused
    · split at refused
      · cases refused
      · cases refused
        rfl

/-- A record found is what the claim reports. -/
theorem lookup_found {record : Record} (token : String) (mirrors : table.Mirrors store)
    (wellFormed : table.WellFormed) (valid : validateClaim ctx key fingerprint ttl = .ok ())
    (found : table.lookupRecord key now = .ok (some record)) :
    ∃ result, record.claimResult fingerprint = .replied (.claimed (.ok result)) ∧
      store.claimAs token ctx (reading now) key fingerprint ttl = (.ok result, store) := by
  unfold lookupRecord at found
  split at found
  · cases found
  · split at found
    · rename_i row stored
      split at found
      · rename_i live
        simp only [Except.ok.injEq, Option.some.injEq] at found
        subst found
        refine ⟨answer row.entry fingerprint, ?_, ?_⟩
        · by_cases same : row.fingerprint = fingerprint
          · rcases wellFormed key row stored with inFlight | completed
            · simp [Record.claimResult, answer, Row.entry, same, inFlight]
            · simp [Record.claimResult, answer, Row.entry, same, completed,
                rowInFlight, rowCompleted]
          · simp [Record.claimResult, answer, Row.entry, same]
        · have mirrored : store.live (reading now) key = some row.entry := by
            simp [mirrors.live, stored, Option.filter, live]
          rw [claimAs, valid, mirrored]
      · cases found
    · cases found

variable {response : CachedResponse}

variable (valid : validateCommit ctx key token ttl = .ok ())

include mirrors valid in
/-- A completed row is a successful commit. -/
theorem complete_done (whole : 1000 ∣ ttl)
    (storable : Header.Storable response.header)
    (done : table.complete {
      key, token, fingerprint
      status := response.statusCode
      header := encodeHeader response.header
      body := response.body
      now
      expires := now + ttl } = .ok (true, next)) :
    ∃ after, store.commit ctx (reading now) key token fingerprint response ttl =
        (.ok (), after) ∧ next.Mirrors after ∧
      ∃ row changed, table.lookup key = some row ∧ changed.token = row.token ∧
        changed.fingerprint = row.fingerprint ∧ changed.state = rowCompleted ∧
        next = table.insert key changed := by
  unfold complete at done
  split at done
  · cases done
  · cases found : table.lookup key with
    | none => simp [found] at done
    | some row =>
      simp only [found] at done
      split at done
      · rename_i owned
        obtain ⟨rfl, rfl, inFlight, live⟩ := owned
        simp only [Except.ok.injEq, Prod.mk.injEq, true_and] at done
        have unexpired : ¬ row.entry.Expired (reading now) := by
          rw [row.expired_entry, not_le]
          exact live
        have stored : store.entries.lookup key = some row.entry := by simp [mirrors key, found]
        have mine : ¬ (row.entry.state ≠ .inFlight ∨ row.entry.token ≠ row.token ∨
            row.entry.Expired (reading now)) := by
          simpa [Row.entry, inFlight] using unexpired
        let changed : Row :=
          { row with
            state := rowCompleted
            statusCode := response.statusCode
            header := encodeHeader response.header
            body := response.body
            expiresAt := timestamptz (now + ttl) }
        have entry : changed.entry =
            { state := .completed, token := row.token, fingerprint := row.fingerprint,
              resp := response, expiresAt := reading now + ttl } := by
          simp [changed, Row.entry, reading_add whole, decodeHeader_encodeHeader storable,
            rowCompleted, rowInFlight]
        refine ⟨{ store with entries := store.entries.insert key changed.entry }, ?_, ?_,
          row, changed, rfl, rfl, rfl, rfl, done.symm⟩
        · have print : row.entry.fingerprint = row.fingerprint := rfl
          simp [commit, valid, stored, mine, print, entry]
        · rw [← done]
          exact mirrors.insert changed store.sequence
      · cases done

/-- A commit that completes nothing has lost its reservation, unless the row is
its own with another fingerprint. -/
theorem complete_refused {done : Completion} (refused : table.complete done = .ok (false, next)) :
    next = table ∧ (∀ row, table.lookup done.key = some row → row.token = done.token →
      row.state = rowInFlight → timestamptz done.now < row.expiresAt →
      row.fingerprint ≠ done.fingerprint) := by
  unfold complete at refused
  split at refused
  · cases refused
  · cases found : table.lookup done.key with
    | none =>
      simp only [found, Except.ok.injEq, Prod.mk.injEq, true_and] at refused
      exact ⟨refused.symm, by simp⟩
    | some row =>
      simp only [found] at refused
      split at refused
      · cases refused
      · rename_i foreign
        simp only [Except.ok.injEq, Prod.mk.injEq, true_and] at refused
        refine ⟨refused.symm, ?_⟩
        intro other same owner inFlight live print
        cases same
        exact foreign ⟨owner, print, inFlight, live⟩

include mirrors valid in
/-- Without a live row of its own a commit is lost. -/
theorem commit_lost
    (foreign : ∀ row, table.lookup key = some row → row.token = token →
      row.state = rowInFlight → ¬ timestamptz now < row.expiresAt) :
    store.commit ctx (reading now) key token fingerprint response ttl =
      (.error .reservationLost, store) := by
  rw [commit, valid]
  cases found : table.lookup key with
  | none => simp [mirrors key, found]
  | some row =>
    have lost : row.entry.state ≠ .inFlight ∨ row.entry.token ≠ token ∨
        row.entry.Expired (reading now) := by
      rw [row.expired_entry]
      by_cases inFlight : row.state = rowInFlight
      · by_cases owner : row.token = token
        · exact .inr (.inr (not_lt.mp (foreign row found owner inFlight)))
        · exact .inr (.inl owner)
      · exact .inl (by simp [Row.entry, inFlight])
    simp [mirrors key, found, lost]

include mirrors valid in
theorem commit_mismatch {row : Row} (found : table.lookup key = some row)
    (owner : row.token = token) (inFlight : row.state = rowInFlight)
    (live : timestamptz now < row.expiresAt) (foreign : row.fingerprint ≠ fingerprint) :
    store.commit ctx (reading now) key token fingerprint response ttl =
      (.error .fingerprintMismatch, store) := by
  have mine : ¬ (row.entry.state ≠ .inFlight ∨ row.entry.token ≠ token ∨
      row.entry.Expired (reading now)) := by
    rw [row.expired_entry, not_le.mpr live |> eq_false]
    simp [Row.entry, inFlight, owner]
  have other : row.entry.fingerprint ≠ fingerprint := foreign
  rw [commit, valid]
  simp [mirrors key, found, mine, other]

theorem owner_spec {owned : Option String} (answered : table.owner key token now = .ok owned) :
    match owned with
    | some print => ∃ row, table.lookup key = some row ∧ row.token = token ∧
        row.state = rowInFlight ∧ timestamptz now < row.expiresAt ∧ row.fingerprint = print
    | none => ∀ row, table.lookup key = some row → row.token = token →
        row.state = rowInFlight → ¬ timestamptz now < row.expiresAt := by
  unfold owner at answered
  split at answered
  · cases answered
  · cases found : table.lookup key with
    | none =>
      simp only [found, Except.ok.injEq] at answered
      subst answered
      simp
    | some row =>
      simp only [found] at answered
      split at answered
      · rename_i mine
        simp only [Except.ok.injEq] at answered
        subst answered
        exact ⟨row, rfl, mine.1, mine.2.1, mine.2.2, rfl⟩
      · rename_i foreign
        simp only [Except.ok.injEq] at answered
        subst answered
        intro other same owner inFlight live
        cases same
        exact foreign ⟨owner, inFlight, live⟩

include mirrors in
theorem release_spec {released : Bool} (valid : validateRelease ctx key token = .ok ())
    (answered : table.release key token = .ok (released, next)) :
    ∃ after, store.release ctx key token =
        (if released then .ok () else .error .reservationLost, after) ∧ next.Mirrors after ∧
      (next = table ∨ next = table.erase key) := by
  unfold release at answered
  split at answered
  · cases answered
  · cases found : table.lookup key with
    | none =>
      simp only [found, Except.ok.injEq, Prod.mk.injEq] at answered
      obtain ⟨rfl, rfl⟩ := answered
      refine ⟨store, ?_, mirrors, .inl rfl⟩
      simp [MemoryStore.release, valid, mirrors key, found]
    | some row =>
      simp only [found] at answered
      split at answered
      · rename_i mine
        simp only [Except.ok.injEq, Prod.mk.injEq] at answered
        obtain ⟨rfl, rfl⟩ := answered
        refine ⟨_, ?_, mirrors.erase store.sequence, .inr rfl⟩
        simp [MemoryStore.release, valid, mirrors key, found, Row.entry, mine]
      · rename_i foreign
        simp only [Except.ok.injEq, Prod.mk.injEq] at answered
        obtain ⟨rfl, rfl⟩ := answered
        refine ⟨store, ?_, mirrors, .inl rfl⟩
        have lost : row.entry.state ≠ .inFlight ∨ row.entry.token ≠ token := by
          by_cases inFlight : row.state = rowInFlight
          · exact .inr fun owner => foreign ⟨owner, inFlight⟩
          · exact .inl (by simp [Row.entry, inFlight])
        simp [MemoryStore.release, valid, mirrors key, found, lost]

variable {order : List String}

theorem expiredKeys_erase (fresh : key ∉ order) :
    expiredKeys (table.erase key) now order = table.expiredKeys now order := by
  refine List.filter_congr fun other member => ?_
  have different : other ≠ key := fun same => fresh (same ▸ member)
  simp [Finmap.lookup_erase_ne different]

/-- The loop of the sequential sweep removes what the statement removes. -/
theorem sweepLoop_mirrors (now : Time) {limit : Int} (distinct : order.Nodup) (removed : Int)
    (room : removed ≤ limit) (mirrors : table.Mirrors store) :
    let swept := (table.expiredKeys now order).take (limit - removed).toNat
    (sweepLoop (reading now) limit order removed store).1 = removed + swept.length ∧
      Mirrors (swept.foldl (fun table key => table.erase key) table)
        (sweepLoop (reading now) limit order removed store).2 := by
  induction order generalizing removed table store with
  | nil => simpa [sweepLoop, expiredKeys] using mirrors
  | cons key rest ih =>
    obtain ⟨fresh, distinct⟩ := List.nodup_cons.mp distinct
    rw [sweepLoop]
    by_cases full : removed = limit
    · simpa [full] using mirrors
    · simp only [if_neg full, mirrors key]
      cases found : table.lookup key with
      | none =>
        have skipped : table.expiredKeys now (key :: rest) = table.expiredKeys now rest := by
          simp [expiredKeys, found]
        simp only [Option.map_none, skipped]
        exact ih distinct removed room mirrors
      | some row =>
        simp only [Option.map_some, row.expired_entry]
        by_cases expired : row.expiresAt ≤ timestamptz now
        · have listed : table.expiredKeys now (key :: rest) =
              key :: table.expiredKeys now rest := by
            simp [expiredKeys, found, expired]
          have more : (limit - removed).toNat = (limit - (removed + 1)).toNat + 1 := by omega
          have erased : Mirrors (table.erase key)
              { store with entries := store.entries.erase key } :=
            mirrors.erase store.sequence
          have tail := ih distinct (removed + 1) (by omega) erased
          rw [expiredKeys_erase fresh] at tail
          simp only [if_pos expired, listed, more, List.take_succ_cons, List.length_cons,
            List.foldl_cons]
          refine ⟨?_, tail.2⟩
          rw [tail.1]
          push_cast
          omega
        · have skipped : table.expiredKeys now (key :: rest) = table.expiredKeys now rest := by
            simp [expiredKeys, found, expired]
          simp only [if_neg expired, skipped]
          exact ih distinct removed room mirrors

theorem lookup_foldl_erase {keys : List String} {row : Row}
    (found : (keys.foldl (fun table key => table.erase key) table).lookup key = some row) :
    table.lookup key = some row := by
  induction keys generalizing table with
  | nil => exact found
  | cons head keys ih =>
    have kept := ih found
    by_cases same : key = head
    · subst same
      simp at kept
    · rwa [Finmap.lookup_erase_ne same] at kept

theorem sweep_spec (now : Time) {limit : Int} (mirrors : table.Mirrors store)
    (valid : validateSweep ctx limit maxSweepBatch = .ok ()) (scans : table.Scans order) :
    (Call.sweep ctx limit order).Iterates store ∧
      ∃ after, store.sweep ctx (reading now) limit order =
        (.ok (table.sweep now limit order).1, after) ∧
        Mirrors (table.sweep now limit order).2 after ∧
        ∀ key row, (table.sweep now limit order).2.lookup key = some row →
          table.lookup key = some row := by
  have positive : 0 ≤ limit := by
    unfold validateSweep validateContext at valid
    by_contra negative
    have invalid : limit ≤ 0 ∨ maxSweepBatch < limit := .inl (by omega)
    cases cause : ctx.err <;>
      simp [cause, invalid, bind, Except.bind, throw, throwThe, MonadExceptOf.throw] at valid
  obtain ⟨counted, mirrored⟩ := sweepLoop_mirrors now scans.1 0 positive mirrors
  refine ⟨⟨scans.1, ?_⟩, (sweepLoop (reading now) limit order 0 store).2, ?_, ?_, ?_⟩
  · ext key
    rw [List.mem_toFinset, scans.2.1, Finmap.mem_keys, mirrors.mem_iff]
  · rw [MemoryStore.sweep, valid]
    dsimp only
    rw [counted]
    simp [sweep]
  · simpa [sweep] using mirrored
  · intro key row found
    exact lookup_foldl_erase found

end Table

end Golusoris.Idempotency

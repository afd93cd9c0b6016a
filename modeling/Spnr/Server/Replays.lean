import Spnr.Server.Honest

/-! One device's history on the server when its batches are repeated, delayed and mixed
with forgeries: how far the server has got in the history only ever grows, and a batch
that does not leave a gap takes it to the batch's end. -/
namespace Spnr.Server

variable {C : Crates}

/-- The first `m` events of the history are accepted, and none of the device's own ids is
spent on anything else. -/
structure Reached (s : Loaded C.VerifyingKey) (d : String) (vk : C.VerifyingKey) (base : Nat)
    (own : Set String) (es : List Event) (m : Nat) : Prop where
  tracks : Tracks s d vk base (es.take m)
  inside : m ≤ es.length
  spent : ∀ id ∈ s.seenEventIds, id ∈ own → id ∈ (es.take m).map Event.id

section

variable {d : String} {vk : C.VerifyingKey} {base : Nat} {own : Set String}
  {es : List Event} {m : Nat}

theorem Reached.event {s : AppState C.VerifyingKey}
    (reached : Reached s.toLoaded d vk base own es m)
    (chained : Chained C 0 genesisPrev es) {se : SignedEvent}
    (signed : SignedUnder vk se → se.e ∈ es) :
    ((∃ dev, Accepts s.toLoaded d se dev) ∧ es[m]? = some se.e ∧
        Reached (ingestEvent C s d se).1.toLoaded d vk base own es (m + 1)) ∨
      ((∀ dev, ¬ Accepts s.toLoaded d se dev) ∧
        Reached (ingestEvent C s d se).1.toLoaded d vk base own es m) := by
  rcases reached.tracks.event se with ⟨dev, accepts, next⟩ | ⟨rejects, same⟩
  · left
    obtain ⟨key, -, -, expected⟩ := reached.tracks.expected accepts.known
    have here := chained.eq_of_ctr (signed (key ▸ accepts.signed))
    rw [accepts.counted, expected, List.length_take, Nat.min_eq_left reached.inside] at here
    obtain ⟨inside, same⟩ := List.getElem?_eq_some_iff.mp here
    have more : es.take (m + 1) = es.take m ++ [se.e] := by
      rw [List.take_succ_eq_append_getElem inside, same]
    refine ⟨⟨dev, accepts⟩, here, ?_, inside, ?_⟩
    · rw [more]
      exact next
    · rw [ingestEvent_accepted accepts, more, List.map_append]
      intro id seen mine
      rcases Finset.mem_insert.mp seen with rfl | old
      · exact List.mem_append_right _ List.mem_cons_self
      · exact List.mem_append_left _ (reached.spent id old mine)
  · right
    refine ⟨rejects, same, reached.inside, ?_⟩
    rw [ingestEvent_rejected rejects]
    exact reached.spent

theorem Reached.batch (chained : Chained C 0 genesisPrev es) (ses : List SignedEvent)
    {s : AppState C.VerifyingKey}
    (reached : Reached s.toLoaded d vk base own es m)
    (signed : ∀ se ∈ ses, SignedUnder vk se → se.e ∈ es) :
    ∃ m', m ≤ m' ∧ Reached (ingestAll s d ses).1.toLoaded d vk base own es m' := by
  induction ses generalizing s m with
  | nil => exact ⟨m, Nat.le_refl m, reached⟩
  | cons se rest ih =>
    have later se' mem := signed se' (List.mem_cons_of_mem se mem)
    rcases reached.event chained (signed se List.mem_cons_self) with ⟨-, -, next⟩ | ⟨-, next⟩
    · obtain ⟨m', more, final⟩ := ih next later
      exact ⟨m', by omega, final⟩
    · exact ih next later

theorem Reached.other {srv : ServerState C.VerifyingKey} (synced : Synced srv)
    (reached : Reached srv.mem.toLoaded d vk base own es m) {r : Request} (once : ¬ r.Registers d)
    (silent : r.fromDevice d = none) (apart : ∀ id ∈ r.ids, id ∉ own) :
    Reached (srv.step C r).mem.toLoaded d vk base own es m := by
  have frame := step_frame synced reached.tracks.owned once silent
  refine ⟨reached.tracks.congr (act_owned synced reached.tracks.owned (.complete r)) frame,
    reached.inside, ?_⟩
  intro id seen mine
  rcases step_seen synced r id seen with old | now
  · exact reached.spent id old mine
  · exact absurd mine (apart id now)

theorem Reached.step {srv : ServerState C.VerifyingKey} (synced : Synced srv)
    (reached : Reached srv.mem.toLoaded d vk base own es m) (chained : Chained C 0 genesisPrev es)
    {r : Request}
    (once : ¬ r.Registers d) (signed : ∀ se ∈ r.carries d, SignedUnder vk se → se.e ∈ es)
    (apart : r.fromDevice d = none → ∀ id ∈ r.ids, id ∉ own) :
    ∃ m', m ≤ m' ∧ Reached (srv.step C r).mem.toLoaded d vk base own es m' := by
  cases batch : r.fromDevice d with
  | none => exact ⟨m, Nat.le_refl m, reached.other synced once batch (apart batch)⟩
  | some req =>
    obtain ⟨-, -, carried, state⟩ := step_fromDevice srv batch
    rw [state]
    rw [carried] at signed
    exact reached.batch chained req.events signed

end

section

variable {d : String} {key : C.SigningKey} {base : Nat} {own : Set String} {es : List Event}

structure OwnIds (own : Set String) (es : List Event) : Prop where
  distinct : (es.map Event.id).Nodup
  own : ∀ e ∈ es, e.id ∈ own

theorem Reached.honest_event {s : AppState C.VerifyingKey} {m : Nat}
    (reached : Reached s.toLoaded d (C.verifyingKey key) base own es m)
    (chained : Chained C 0 genesisPrev es)
    (ids : OwnIds own es) {i : Nat} {e : Event} (here : es[i]? = some e) (gapless : i ≤ m) :
    ∃ m', m ≤ m' ∧ i < m' ∧
      Reached (ingestEvent C s d (signedBy C key e)).1.toLoaded d (C.verifyingKey key) base
        own es m' := by
  have mem := List.mem_of_getElem? here
  have signed (_ : SignedUnder (C.verifyingKey key) (signedBy C key e)) :
    (signedBy C key e).e ∈ es := mem
  rcases reached.event chained signed with ⟨-, -, next⟩ | ⟨rejects, next⟩
  · exact ⟨m + 1, by omega, by omega, next⟩
  · rcases Nat.lt_or_eq_of_le gapless with early | rfl
    · exact ⟨m, Nat.le_refl m, early, next⟩
    · -- it is the next one: its id is not spent, so the checks pass
      exfalso
      obtain ⟨inside, same⟩ := List.getElem?_eq_some_iff.mp here
      obtain ⟨own', -, head, next⟩ := reached.tracks.expected reached.tracks.device
      rw [List.length_take, Nat.min_eq_left reached.inside] at next
      obtain ⟨ctr, prev⟩ := chained.get here
      have unseen : e.id ∉ s.seenEventIds := by
        intro seen
        have spent := reached.spent e.id seen (ids.own e mem)
        have split : es = es.take i ++ e :: es.drop (i + 1) := by
          rw [← same, List.getElem_cons_drop, List.take_append_drop]
        have distinct := ids.distinct
        rw [split, List.map_append, List.nodup_append'] at distinct
        exact distinct.2.2 spent List.mem_cons_self
      exact rejects _ (signedBy_accepts reached.tracks.device own' (prev.trans head.symm)
        (ctr.trans next.symm) unseen)

theorem Reached.honest_batch (chained : Chained C 0 genesisPrev es) (ids : OwnIds own es)
    (batch : List Event)
    {s : AppState C.VerifyingKey} {m : Nat}
    (reached : Reached s.toLoaded d (C.verifyingKey key) base own es m)
    {before after : List Event} (split : es = before ++ batch ++ after)
    (gapless : before.length ≤ m) : ∃ m', m ≤ m' ∧ before.length + batch.length ≤ m' ∧
      Reached (ingestAll s d (batch.map (signedBy C key))).1.toLoaded d (C.verifyingKey key) base
        own es m' := by
  induction batch generalizing s m before with
  | nil => exact ⟨m, Nat.le_refl m, gapless, reached⟩
  | cons e batch ih =>
    have here : es[before.length]? = some e := by
      rw [split, List.append_assoc, List.getElem?_append_right (Nat.le_refl _), Nat.sub_self]
      rfl
    obtain ⟨m₁, more, beyond, next⟩ := reached.honest_event chained ids here gapless
    have split' : es = (before ++ [e]) ++ batch ++ after := by simpa using split
    have gapless' : (before ++ [e]).length ≤ m₁ := by
      rw [List.length_append]
      exact beyond
    obtain ⟨m₂, more', whole, final⟩ := ih next split' gapless'
    refine ⟨m₂, by omega, ?_, final⟩
    rw [List.length_append, List.length_singleton] at whole
    rw [List.length_cons]
    omega

end

end Spnr.Server

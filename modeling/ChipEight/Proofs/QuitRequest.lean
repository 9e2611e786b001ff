import ChipEight.Proofs.Interleaving

/-!
# Requests to quit

A character that asks to quit puts a marker behind the keys that are queued by then.  The marker
waits for room if it has to, nothing comes in behind it, and the poll that takes it is the one that
answers yes, in whatever order the reader and the polls make their moves.
-/

namespace ChipEight.Terminal

namespace Reader

variable {r : Reader} {code lowered : Int}

theorem settle_cases (r : Reader) :
    (r.holding = true ∧ r.queue.length < 16 ∧
      r.settle = { r with queue := r.queue ++ [none], holding := false, stopped := true }) ∨
    ((r.holding = true → 16 ≤ r.queue.length) ∧ r.settle = r) := by
  have hroom : r.hasRoom = true ↔ r.queue.length < 16 := decide_eq_true_iff
  by_cases h : r.holding = true ∧ r.queue.length < 16
  · exact .inl ⟨h.1, h.2, if_pos (Bool.and_eq_true_iff.mpr ⟨h.1, hroom.mpr h.2⟩)⟩
  · refine .inr ⟨fun hholding => Nat.le_of_not_lt fun hlt => h ⟨hholding, hlt⟩, if_neg ?_⟩
    intro hboth
    obtain ⟨hholding, hr⟩ := Bool.and_eq_true_iff.mp hboth
    exact h ⟨hholding, hroom.mp hr⟩

theorem holding_settle_iff (r : Reader) :
    r.settle.holding = true ↔ r.holding = true ∧ 16 ≤ r.queue.length := by
  obtain ⟨-, hlt, hsettle⟩ | ⟨hfull, hsettle⟩ := r.settle_cases
  · simp [hsettle, hlt]
  · rw [hsettle]
    exact ⟨fun hholding => ⟨hholding, hfull hholding⟩, And.left⟩

theorem take_cases (r : Reader) (code : Int) :
    ∃ keys : List (Fin 16), r.take code = { r with queue := r.queue ++ keys.map some } ∧
      (r.queue.length ≤ 16 → (r.queue ++ keys.map some).length ≤ 16) := by
  rw [take]
  cases r.keymap.key? code with
  | none => exact ⟨[], by simp⟩
  | some key =>
    by_cases hroom : r.hasRoom = true
    · refine ⟨[key], if_pos hroom, fun _ => ?_⟩
      have hlt : r.queue.length < 16 := of_decide_eq_true hroom
      rw [List.length_append]
      exact hlt
    · exact ⟨[], (if_neg hroom).trans (by simp), by simp⟩

theorem read_of_quit (hcode : 0 ≤ code) (hl : LowerCase.ofCode code = .ok lowered)
    (hquit : lowered = escape ∨ lowered = interrupt) :
    (r.read code).state = { r with holding := true }.settle := by
  have hneg : ¬ code < 0 := by omega
  simp [read, hneg, hl, hquit]

theorem read_cases (r : Reader) (code : Int) :
    (∃ keys : List (Fin 16), (r.read code).state = { r with queue := r.queue ++ keys.map some } ∧
      (r.queue.length ≤ 16 → (r.queue ++ keys.map some).length ≤ 16)) ∨
    (r.read code).state = { r with stopped := true } ∨
    (r.read code).state = { r with holding := true }.settle := by
  by_cases hneg : code < 0
  · exact .inl ⟨[], by simp [read, hneg], by simp⟩
  · cases hl : LowerCase.ofCode code with
    | error e => exact .inr (.inl (by simp [read, hneg, hl]))
    | ok lowered =>
      by_cases hquit : lowered = escape ∨ lowered = interrupt
      · exact .inr (.inr (read_of_quit (by omega) hl hquit))
      · obtain ⟨keys, htake, hroom⟩ := r.take_cases lowered
        refine .inl ⟨keys, ?_, hroom⟩
        rw [← htake]
        simp [read, hneg, hl, hquit]

end Reader

variable {τ : Type} [Instant τ]

namespace Collecting

variable {p : Collecting τ} {timers : Timers τ}

theorem get_renew (p : Collecting τ) (timers : Timers τ) (key other : Fin 16) :
    (p.renew timers key).get other =
      if key = other then Instant.add p.now Keys.hold else timers.get other := by
  change (timers.set key _)[other] = if key = other then _ else timers[other]
  simp only [Fin.getElem_fin, Vector.getElem_set, Fin.ext_iff]

/-- The keys that a poll took are held from its time on, and all other timers are as before. -/
structure Renews (p : Collecting τ) (timers : Timers τ) : Prop where
  held : ∀ key : Fin 16, some key ∈ p.taken → timers.get key = Instant.add p.now Keys.hold
  kept : ∀ key : Fin 16, some key ∉ p.taken → timers.get key = p.earlier.get key

namespace Renews

theorem key (h : p.Renews timers) (key : Fin 16) :
    Renews { p with taken := p.taken ++ [some key] } (p.renew timers key) := by
  refine ⟨fun other hother => ?_, fun other hother => ?_⟩
  · rw [get_renew]
    by_cases heq : key = other
    · rw [if_pos heq]
    · rw [if_neg heq]
      refine h.held other ?_
      simpa [Ne.symm heq] using hother
  · simp only [List.mem_append, List.mem_singleton, Option.some.injEq, not_or] at hother
    rw [get_renew, if_neg (Ne.symm hother.2)]
    exact h.kept other hother.1

theorem marker (h : p.Renews timers) : Renews { p with taken := p.taken ++ [none] } timers where
  held key hkey := h.held key (by simpa using hkey)
  kept key hkey := h.kept key (by simpa using hkey)

end Renews

end Collecting

/-- A poll that is over took keys, and then the marker just if it said so. -/
structure Collected.Sound (p : Collected τ) : Prop where
  taken : ∃ keys : List (Fin 16), p.taken = keys.map some ++ if p.quit then [none] else []
  renews : p.Renews p.timers

theorem Collected.Sound.quit_iff {p : Collected τ} (h : p.Sound) :
    p.quit = true ↔ none ∈ p.taken := by
  obtain ⟨keys, htaken⟩ := h.taken
  rw [htaken]
  cases p.quit <;> simp

namespace Desk

variable {d : Desk τ} {keymap : Keymap} {keypad : Keypad}

/-- What holds at any time. -/
structure Sound (d : Desk τ) : Prop where
  room : d.keys.reader.queue.length ≤ 16
  listening : d.listening = true → d.keys.reader.holding = false ∧ d.keys.reader.stopped = false
  /-- With the marker in the queue the reader is through. -/
  unasked : d.keys.reader.stopped = false → none ∉ d.passed
  polling : ∀ p, d.polling = some p →
    (∃ keys : List (Fin 16), p.taken = keys.map some) ∧ p.Renews d.keys.timers
  polls : ∀ p ∈ d.polls, p.Sound

namespace Sound

theorem new (keymap : Keymap) (keypad : Keypad) : (new keymap keypad : Desk τ).Sound where
  room := Nat.zero_le 16
  listening := nofun
  unasked _ := List.not_mem_nil
  polling := nofun
  polls := nofun

theorem settle (h : d.Sound) : (d.respond .settle).Sound := by
  obtain ⟨hholding, hroom, hsettle⟩ | ⟨-, hsettle⟩ := d.keys.reader.settle_cases
  · refine ⟨?_, fun hl => ?_, ?_, h.polling, h.polls⟩
    · change d.keys.reader.settle.queue.length ≤ 16
      rw [hsettle, List.length_append]
      exact hroom
    · rw [(h.listening hl).1] at hholding
      cases hholding
    · change d.keys.reader.settle.stopped = false → _
      rw [hsettle]
      simp
  · rw [respond, hsettle]
    exact h

theorem typed (h : d.Sound) (code : Int) : (d.respond (.typed code)).Sound := by
  by_cases hl : d.listening = true
  · obtain ⟨hholding, hstopped⟩ := h.listening hl
    have hnone : none ∉ d.taken ++ d.keys.reader.queue := h.unasked hstopped
    rw [respond, if_pos hl]
    obtain ⟨keys, hread, hroom⟩ | hread | hread := d.keys.reader.read_cases code
    · rw [hread]
      refine ⟨hroom h.room, by simp, fun _ => ?_, h.polling, h.polls⟩
      change none ∉ d.taken ++ (d.keys.reader.queue ++ keys.map some)
      rw [← List.append_assoc]
      simpa using hnone
    · rw [hread]
      exact ⟨h.room, by simp, by simp, h.polling, h.polls⟩
    · rw [hread]
      let reader := { d.keys.reader with holding := true }
      have hheld : Sound { d.withReader reader with listening := false } :=
        ⟨h.room, by simp, fun _ => hnone, h.polling, h.polls⟩
      exact hheld.settle
  · rw [respond, if_neg hl]
    exact h

theorem advance_polls {p : Collecting τ} (h : d.Sound) (hp : d.polling = some p) :
    (∀ q, (d.advance p).polling = some q →
      (∃ keys : List (Fin 16), q.taken = keys.map some) ∧ q.Renews (d.advance p).keys.timers) ∧
    ∀ q ∈ (d.advance p).polls, q.Sound := by
  obtain ⟨⟨keys, hkeys⟩, hrenews⟩ := h.polling p hp
  have hended {q : Collected τ} (hq : q.Sound) : ∀ r ∈ d.polls ++ [q], r.Sound := by
    intro r hr
    obtain hr | hr := List.mem_append.mp hr
    · exact h.polls r hr
    · exact List.mem_singleton.mp hr ▸ hq
  cases hq : d.keys.reader.queue with
  | nil =>
    rw [advance_nil hq]
    exact ⟨nofun, hended ⟨⟨keys, hkeys.trans (List.append_nil _).symm⟩, hrenews⟩⟩
  | cons entry rest =>
    cases entry with
    | none =>
      rw [advance_none hq]
      exact ⟨nofun, hended ⟨⟨keys, congrArg (· ++ [none]) hkeys⟩, hrenews.marker⟩⟩
    | some key =>
      rw [advance_some hq]
      refine ⟨?_, h.polls⟩
      rintro _ ⟨⟩
      refine ⟨⟨keys ++ [key], ?_⟩, hrenews.key key⟩
      change p.taken ++ [some key] = _
      rw [hkeys, List.map_append, List.map_singleton]

theorem advance {p : Collecting τ} (h : d.Sound) (hp : d.polling = some p) :
    (d.advance p).Sound := by
  obtain ⟨hreader, hlistening⟩ := d.reader_advance p
  obtain ⟨hpolling, hpolls⟩ := h.advance_polls hp
  refine ⟨?_, ?_, ?_, hpolling, hpolls⟩
  · have hlen := h.room
    rw [hreader, List.length_tail]
    omega
  · rw [hreader, hlistening]
    exact h.listening
  · rw [hreader, passed_advance hp]
    exact h.unasked

theorem respond (h : d.Sound) (move : Move τ) : (d.respond move).Sound := by
  cases move with
  | listen =>
    refine { h with listening := fun hl => ?_ }
    obtain hl | hl := Bool.or_eq_true_iff.mp hl
    · exact h.listening hl
    · simp only [Reader.listens, Bool.not_eq_true', Bool.or_eq_false_iff] at hl
      exact ⟨hl.2, hl.1.2⟩
  | typed code => exact h.typed code
  | settle => exact h.settle
  | poll now =>
    cases hp : d.polling with
    | none =>
      have hpassed := d.passed_poll now
      rw [respond_poll hp] at hpassed ⊢
      refine ⟨h.room, h.listening, fun hs => hpassed ▸ h.unasked hs, ?_, h.polls⟩
      rintro _ ⟨⟩
      exact ⟨⟨[], rfl⟩, fun key hkey => absurd hkey List.not_mem_nil, fun _ _ => rfl⟩
    | some p =>
      rw [respond_poll_busy hp]
      exact h
  | take =>
    cases hp : d.polling with
    | none =>
      rw [respond_take_idle hp]
      exact h
    | some p =>
      rw [respond_take hp]
      exact h.advance hp
  | dismiss => exact { h with }

theorem run (h : d.Sound) (moves : List (Move τ)) : (d.run moves).Sound := by
  induction moves generalizing d with
  | nil => exact h
  | cons move rest ih => exact ih (h.respond move)

end Sound

/-- A request to quit was read when `sent` had been put into the queue. -/
structure Asked (sent : List (Option (Fin 16))) (d : Desk τ) : Prop where
  deaf : d.listening = false
  listens : d.keys.reader.listens = false
  passed : d.passed = sent ++ if d.keys.reader.holding then [] else [none]

namespace Asked

variable {c : Desk τ} {code lowered : Int} {sent : List (Option (Fin 16))}

theorem settle (h : Asked sent d) : Asked sent (d.respond .settle) := by
  obtain ⟨hholding, -, hsettle⟩ | ⟨-, hsettle⟩ := d.keys.reader.settle_cases
  · have hpassed := h.passed
    rw [hholding, if_pos rfl, List.append_nil] at hpassed
    rw [respond, hsettle]
    refine ⟨h.deaf, by simp [withReader, Reader.listens], ?_⟩
    change d.taken ++ (d.keys.reader.queue ++ [none]) = sent ++ [none]
    rw [← List.append_assoc]
    exact congrArg (· ++ [none]) hpassed
  · rw [respond, hsettle]
    exact h

/-- The request at the time it is read: it is put behind what is queued, or held. -/
theorem read (h : c.Sound) (hl : c.listening = true) (hcode : 0 ≤ code)
    (hlow : LowerCase.ofCode code = .ok lowered)
    (hquit : lowered = Reader.escape ∨ lowered = Reader.interrupt) :
    Asked c.passed (c.respond (.typed code)) := by
  obtain ⟨hholding, hstopped⟩ := h.listening hl
  let reader := { c.keys.reader with holding := true }
  have hheld : Asked c.passed { c.withReader reader with listening := false } :=
    ⟨rfl, by simp [withReader, reader, Reader.listens], (List.append_nil _).symm⟩
  have hread := Reader.read_of_quit (r := c.keys.reader) hcode hlow hquit
  rw [respond, if_pos hl, hread]
  exact hheld.settle

theorem respond (h : Asked sent d) (move : Move τ) : Asked sent (d.respond move) := by
  cases move with
  | listen =>
    refine { h with deaf := ?_ }
    change (d.listening || d.keys.reader.listens) = false
    rw [h.deaf, h.listens]
    rfl
  | typed code =>
    have hdeaf : ¬ d.listening = true := by simp [h.deaf]
    rw [Desk.respond, if_neg hdeaf]
    exact h
  | settle => exact h.settle
  | poll now =>
    have hpassed := d.passed_poll now
    cases hp : d.polling with
    | none =>
      rw [respond_poll hp] at hpassed ⊢
      exact { h with passed := hpassed.trans h.passed }
    | some p =>
      rw [respond_poll_busy hp]
      exact h
  | take =>
    cases hp : d.polling with
    | none =>
      rw [respond_take_idle hp]
      exact h
    | some p =>
      obtain ⟨hreader, hlistening⟩ := d.reader_advance p
      rw [respond_take hp]
      refine ⟨hlistening.trans h.deaf, ?_, ?_⟩
      · rw [hreader]
        exact h.listens
      · rw [passed_advance hp, hreader]
        exact h.passed
  | dismiss => exact { h with listens := rfl }

theorem run (h : Asked sent d) (moves : List (Move τ)) : Asked sent (d.run moves) := by
  induction moves generalizing d with
  | nil => exact h
  | cons move rest ih => exact ih (h.respond move)

end Asked

/-- How a request to quit that the reader got at `c` stands at a later time. -/
structure Honours (c d : Desk τ) : Prop where
  keys : none ∉ c.passed
  order : d.passed = c.passed ++ if d.keys.reader.holding then [] else [none]
  /-- The marker is put as soon as there is room. -/
  waits : (d.respond .settle).keys.reader.holding = true ↔
    d.keys.reader.holding = true ∧ d.keys.reader.queue.length = 16
  drains : d.polling.isSome = true →
    (d.respond .take).keys.reader.queue = d.keys.reader.queue.tail
  /-- It stays in the queue until a poll has said yes, and the next poll to end does so. -/
  pending : d.keys.reader.holding = false → (∀ p ∈ d.polls, p.quit = false) →
    none ∈ d.keys.reader.queue ∧
      ∀ p, (d.respond .take).polls = d.polls ++ [p] → p.quit = true
  answers : ∀ p ∈ d.polls, p.quit = true ↔ none ∈ p.taken
  last : ∀ p ∈ d.polls, p.quit = true → ∃ keys : List (Fin 16), p.taken = keys.map some ++ [none]
  timers : ∀ p ∈ d.polls, p.Renews p.timers
  /-- A poll that the reader leaves undisturbed is `Keys.poll`. -/
  alone : d.polling = none → ∀ now,
    ∃ taken, d.run (.poll now :: List.replicate (d.keys.reader.queue.length + 1) .take) =
      let (quit, keypad, keys) := d.keys.poll now d.keypad
      { d with
        keys, keypad
        polls := d.polls ++ [⟨⟨now, d.keys.timers, taken⟩, quit, keys.timers⟩] }

theorem Sound.none_mem_queue (h : d.Sound) (hn : none ∈ d.passed)
    (hno : ∀ p ∈ d.polls, p.quit = false) : none ∈ d.keys.reader.queue := by
  obtain htaken | hqueue := List.mem_append.mp hn
  · obtain hpolls | hpolling := List.mem_append.mp htaken
    · obtain ⟨p, hp, hmem⟩ := List.mem_flatMap.mp hpolls
      have hquit := (h.polls p hp).quit_iff.mpr hmem
      rw [hno p hp] at hquit
      cases hquit
    · cases hp : d.polling with
      | none => simp [hp] at hpolling
      | some p =>
        obtain ⟨⟨keys, hkeys⟩, -⟩ := h.polling p hp
        simp [hp, hkeys] at hpolling
  · exact hqueue

/-- A poll that ends while the marker is in the queue has come to the marker. -/
theorem quit_of_none_mem_queue {p : Collected τ} (hn : none ∈ d.keys.reader.queue)
    (hp : (d.respond .take).polls = d.polls ++ [p]) : p.quit = true := by
  cases hpolling : d.polling with
  | none =>
    rw [respond_take_idle hpolling] at hp
    simp at hp
  | some q =>
    rw [respond_take hpolling] at hp
    cases hq : d.keys.reader.queue with
    | nil =>
      rw [hq] at hn
      cases hn
    | cons entry rest =>
      cases entry with
      | none =>
        rw [advance_none hq] at hp
        have hlast := List.append_cancel_left hp
        rw [← List.singleton_inj.mp hlast]
      | some key =>
        rw [advance_some hq] at hp
        simp at hp

theorem Asked.honours {c : Desk τ} (h : Asked c.passed d) (hkeys : none ∉ c.passed)
    (hd : d.Sound) : Honours c d where
  keys := hkeys
  order := h.passed
  waits := by
    refine (Reader.holding_settle_iff _).trans (and_congr_right fun _ => ?_)
    exact ⟨Nat.le_antisymm hd.room, fun hlen => Nat.le_of_eq hlen.symm⟩
  drains hp := by
    obtain ⟨p, hp⟩ := Option.isSome_iff_exists.mp hp
    rw [respond_take hp, (d.reader_advance p).1]
  pending hholding hno := by
    have hn : none ∈ d.passed := by
      rw [h.passed, hholding]
      exact List.mem_append_right _ List.mem_cons_self
    have hqueue := hd.none_mem_queue hn hno
    exact ⟨hqueue, fun p hp => quit_of_none_mem_queue hqueue hp⟩
  answers p hp := (hd.polls p hp).quit_iff
  last p hp hquit := by
    obtain ⟨keys, htaken⟩ := (hd.polls p hp).taken
    rw [hquit] at htaken
    exact ⟨keys, htaken⟩
  timers p hp := (hd.polls p hp).renews
  alone hp now := run_poll hp now

/-- Whatever moves come before and after it, a request to quit is honoured. -/
theorem quit_honoured (keymap : Keymap) (keypad : Keypad) (past : List (Move τ)) {code lowered : Int}
    (hl : ((new keymap keypad).run past).listening = true) (hcode : 0 ≤ code)
    (hlow : LowerCase.ofCode code = .ok lowered)
    (hquit : lowered = Reader.escape ∨ lowered = Reader.interrupt) :
    let c := (new keymap keypad).run past
    ((c.respond (.typed code)).keys.reader.holding = true ↔ c.keys.reader.queue.length = 16) ∧
    ∀ later, Honours c (c.run (.typed code :: later)) := by
  intro c
  have hc : c.Sound := (Sound.new keymap keypad).run past
  have hkeys : none ∉ c.passed := hc.unasked (hc.listening hl).2
  have hasked : Asked c.passed (c.respond (.typed code)) := .read hc hl hcode hlow hquit
  refine ⟨?_, fun later => ?_⟩
  · rw [respond, if_pos hl, Reader.read_of_quit hcode hlow hquit]
    refine (Reader.holding_settle_iff _).trans ((and_iff_right rfl).trans ?_)
    exact ⟨Nat.le_antisymm hc.room, fun hlen => Nat.le_of_eq hlen.symm⟩
  · exact (hasked.run later).honours hkeys ((hc.respond _).run later)

/-- Escape is read while the queue is full.  The marker waits until a poll has taken the first key,
comes in behind the other fifteen, and ends the poll that began before it was there. -/
theorem quit_honoured_full :
    let past : List (Move Rat) := (List.replicate 17 [.listen, .typed 49]).flatten ++ [.listen]
    let later : List (Move Rat) := [.settle, .poll 1, .take, .settle] ++ List.replicate 16 .take
    let c := (new ⟨[(49, 1)]⟩ Keypad.released).run past
    let d := c.run (.typed 27 :: later)
    c.listening = true ∧ (c.respond (.typed 27)).keys.reader.holding = true ∧ Honours c d ∧
      d.polls.map (fun p => (p.taken, p.quit, p.timers.get 1)) =
        [(List.replicate 16 (some 1) ++ [none], true, 6 / 5)] := by
  intro past later c d
  have hl : c.listening = true := by decide +kernel
  have hfull : c.keys.reader.queue.length = 16 := by decide +kernel
  obtain ⟨hholding, hlater⟩ := quit_honoured ⟨[(49, 1)]⟩ Keypad.released past hl
    (by decide : (0 : Int) ≤ 27) rfl (.inl rfl)
  exact ⟨hl, hholding.mpr hfull, hlater later, by decide +kernel⟩

end Desk

end ChipEight.Terminal

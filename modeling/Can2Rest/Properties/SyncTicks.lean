import Can2Rest.Properties.Isolation

/-!
# Sync ticks

The counter is an unsigned number of 32 bits that is reported as an `int`, and a
sync frame sets it to the first two bytes of the buffer, whatever `len` is.
-/

namespace Can2Rest.Properties

open Foundation Shared

/-- The frame that a pass of the main loop reads and accepts. -/
def acceptedFrame (program : Program) : Event → Option CanfdFrame
  | .pass env =>
      env.received.filter fun frame => program.setup.idFilter.checkMessage (key frame.canId)
  | _ => none

/-- `info.sync_tick` of a document. -/
def infoSyncTick (document : Json) : Option Json :=
  (document.member (ascii "info")).bind (Json.member (ascii "sync_tick"))

/-- The document of the message that `put` returns for an accepted frame. -/
def putDocument (env : Env) (frame : CanfdFrame) (system : System) : Json :=
  CanFrameToJson.messageJson
    (CanFrameToJson.registeredType system.shared.typeRegister (key frame.canId))
    (Main.receivedMessage env system.locals frame)

theorem run_put_convertFrame (env : Env) (frame : CanfdFrame) (system : System) :
    ((do
      let msg ← CanHashtable.put (system.locals.fr.receive frame) env.now
        system.locals.frameSyncCounter.toUInt64 .got
      CanFrameToJson.convertFrame msg : Code Bytes).run bridge env system.shared).1 =
        (putDocument env frame system).dump := by
  rw [Prog.run_bind, CanHashtable.run_put, CanFrameToJson.run_convertFrame]
  rfl

/-- The tick that is reported for the frame of an event, if it accepts one. -/
def reportedTick (program : Program) (system : System) : Event → Option Int
  | .pass env =>
      (acceptedFrame program (.pass env)).bind fun frame =>
        match infoSyncTick (putDocument env frame system) with
        | some (.int tick) => some tick
        | _ => none
  | _ => none

/-- The counter advances by more than one only on a sync frame that says so. -/
def AdvancesOnSync (program : Program) (system : System) (event : Event) : Prop :=
  system.locals.frameSyncCounter.toNat + 1 <
      (System.step program system event).locals.frameSyncCounter.toNat →
    ∃ frame, acceptedFrame program event = some frame ∧ frame.canId = Main.syncFrameId ∧
      ∃ low high rest, frame.payload = low :: high :: rest ∧
        system.locals.frameSyncCounter.toNat < high.toNat * 256 + low.toNat

structure TicksForward (program : Program) (system : System) (events : List Event) :
    Prop where
  nonneg : ∀ tick ∈ observed (System.step program) (reportedTick program) system events,
    0 ≤ tick
  increasing :
    (observed (System.step program) (reportedTick program) system events).Pairwise (· < ·)
  advances : Along (System.step program) (AdvancesOnSync program) system events

/--
At an accepted frame the counter is an `int`; and where a sync frame is too short
for the bytes that are read, what the buffer held is not ahead of the counter.
-/
def CountsSafely (program : Program) (system : System) (event : Event) : Prop :=
  ∀ frame, acceptedFrame program event = some frame →
    system.locals.frameSyncCounter.toNat < 2 ^ 31 ∧
      (frame.canId = Main.syncFrameId → frame.len.toNat < 2 →
        (system.locals.fr.receive frame).word ≤ system.locals.frameSyncCounter.toNat)

/-! ## The counter -/

theorem bmod_nonneg_iff {n m half : Nat} (hm : m = 2 * half) (h : n < m) :
    0 ≤ Int.bmod n m ↔ n < half := by
  by_cases hsmall : n < half
  · rw [Int.bmod_eq_of_le (by omega) (by omega)]
    omega
  · rw [← Int.sub_bmod_right, Int.bmod_eq_of_le (by omega) (by omega)]
    omega

theorem asInt_nonneg_iff (counter : UInt32) :
    0 ≤ asInt counter.toNat ↔ counter.toNat < 2 ^ 31 :=
  bmod_nonneg_iff rfl counter.toNat_lt

theorem word_lt (frame : CanFrame) : frame.word < 65536 := by
  have hlow := UInt8.toNat_lt frame.firstByte
  have hhigh := UInt8.toNat_lt frame.data[1]
  rw [word_eq_add]
  omega

theorem exists_bytes {frame : CanFrame} (h : 2 ≤ frame.len.toNat) :
    ∃ low high rest, frame.payload = low :: high :: rest ∧
      frame.word = high.toNat * 256 + low.toNat := by
  rw [← length_payload] at h
  cases hbytes : frame.payload with
  | nil => simp [hbytes] at h
  | cons low rest =>
      cases rest with
      | nil => simp [hbytes] at h
      | cons high rest =>
          refine ⟨low, high, rest, rfl, ?_⟩
          rw [word_eq hbytes, ← Nat.shiftLeft_add_eq_or_of_lt (UInt8.toNat_lt low),
            Nat.shiftLeft_eq]

theorem toNat_countFrame {counter : UInt32} (h : counter.toNat < 2 ^ 31) (fr : CanFrame) :
    (Main.countFrame counter fr).toNat =
      (if fr.id = Main.syncFrameId ∧ counter.toNat < fr.word then fr.word
        else counter.toNat) + 1 := by
  have hword := word_lt fr
  have hofNat : (UInt32.ofNat fr.word).toNat = fr.word := by
    rw [UInt32.toNat_ofNat']
    omega
  have hgt : UInt32.ofNat fr.word > counter ↔ counter.toNat < fr.word := by
    rw [gt_iff_lt, UInt32.lt_iff_toNat_lt, hofNat]
  have hone : (1 : UInt32).toNat = 1 := rfl
  simp only [Main.countFrame, hgt, UInt32.toNat_add, hone]
  split
  · rw [hofNat]
    omega
  · omega

section Steps

variable {program : Program} {system : System} {event : Event}

theorem counter_of_accepted {frame : CanfdFrame} (h : acceptedFrame program event = some frame) :
    (System.step program system event).locals.frameSyncCounter =
      Main.countFrame system.locals.frameSyncCounter (system.locals.fr.receive frame) := by
  cases event with
  | pass env =>
      obtain ⟨hread, hcheck⟩ := Option.filter_eq_some_iff.mp h
      rw [System.step_accepted hread hcheck]
  | _ => cases h

theorem counter_of_not_accepted (h : acceptedFrame program event = none) :
    (System.step program system event).locals.frameSyncCounter =
      system.locals.frameSyncCounter := by
  have heffect := System.step_effect program system event
  generalize System.step program system event = after at heffect
  cases heffect with
  | accepted env frame hread hcheck =>
      rw [acceptedFrame, hread, Option.filter_some, if_pos hcheck] at h
      cases h
  | _ => rfl

theorem reportedTick_eq (program : Program) (system : System) (event : Event) :
    reportedTick program system event =
      (acceptedFrame program event).map fun _ =>
        asInt system.locals.frameSyncCounter.toNat := by
  cases event with
  | pass env =>
      change (acceptedFrame program (.pass env)).bind _ = _
      cases acceptedFrame program (.pass env) with
      | none => rfl
      | some frame =>
          have htick : system.locals.frameSyncCounter.toUInt64.toNat =
              system.locals.frameSyncCounter.toNat := UInt32.toNat_toUInt64 _
          rw [Option.bind_some, Option.map_some, ← htick]
          rfl
  | _ => rfl

theorem CountsSafely.counter_lt (h : CountsSafely program system event) {frame : CanfdFrame}
    (hframe : acceptedFrame program event = some frame) :
    reportedTick program system event = some (system.locals.frameSyncCounter.toNat : Int) ∧
      system.locals.frameSyncCounter.toNat <
        (System.step program system event).locals.frameSyncCounter.toNat := by
  obtain ⟨hcounter, -⟩ := h frame hframe
  refine ⟨?_, ?_⟩
  · rw [reportedTick_eq, hframe, Option.map_some, asInt_eq_self hcounter]
  · rw [counter_of_accepted hframe, toNat_countFrame hcounter]
    split
    next hjump => exact Nat.lt_succ_of_lt hjump.2
    next => exact Nat.lt_succ_self _

theorem CountsSafely.advancesOnSync (h : CountsSafely program system event) :
    AdvancesOnSync program system event := by
  intro hadvance
  cases hframe : acceptedFrame program event with
  | none =>
      rw [counter_of_not_accepted hframe] at hadvance
      omega
  | some frame =>
      obtain ⟨hcounter, hshort⟩ := h frame hframe
      rw [counter_of_accepted hframe, toNat_countFrame hcounter] at hadvance
      split at hadvance
      next hjump =>
        obtain ⟨hsync, hword⟩ := hjump
        have hlen : 2 ≤ (system.locals.fr.receive frame).len.toNat := by
          by_contra hlen
          exact absurd (hshort hsync (by simpa using hlen)) (by omega)
        obtain ⟨low, high, rest, hbytes, hvalue⟩ := exists_bytes hlen
        rw [payload_receive] at hbytes
        exact ⟨frame, rfl, hsync, low, high, rest, hbytes, hvalue ▸ hword⟩
      next => omega

theorem countsSafely_of_forward
    (hnonneg : ∀ tick, reportedTick program system event = some tick → 0 ≤ tick)
    (hadvances : AdvancesOnSync program system event) :
    CountsSafely program system event := by
  intro frame hframe
  have hcounter : system.locals.frameSyncCounter.toNat < 2 ^ 31 := by
    refine (asInt_nonneg_iff _).mp (hnonneg _ ?_)
    rw [reportedTick_eq, hframe, Option.map_some]
  refine ⟨hcounter, fun hsync hshort => ?_⟩
  by_contra hahead
  have hjump : (system.locals.fr.receive frame).id = Main.syncFrameId ∧
      system.locals.frameSyncCounter.toNat < (system.locals.fr.receive frame).word :=
    ⟨hsync, by omega⟩
  -- the counter jumps, and there are no two bytes to justify it
  have hadvance : system.locals.frameSyncCounter.toNat + 1 <
      (System.step program system event).locals.frameSyncCounter.toNat := by
    rw [counter_of_accepted hframe, toNat_countFrame hcounter, if_pos hjump]
    exact Nat.add_lt_add_right hjump.2 1
  obtain ⟨other, hother, -, low, high, rest, hbytes, -⟩ := hadvances hadvance
  obtain rfl : frame = other := Option.some.inj (hframe.symm.trans hother)
  have hlength := length_payload (system.locals.fr.receive frame)
  rw [payload_receive, hbytes, len_receive] at hlength
  simp only [List.length_cons] at hlength
  omega

end Steps

theorem ticksForward_of_safe {program : Program} {system : System} {events : List Event}
    (h : Along (System.step program) (CountsSafely program) system events) :
    TicksForward program system events := by
  have hquiet : ∀ system event, CountsSafely program system event →
      reportedTick program system event = none →
        (system.locals.frameSyncCounter.toNat : Int) ≤
          (System.step program system event).locals.frameSyncCounter.toNat := by
    intro system event _ hnone
    rw [reportedTick_eq, Option.map_eq_none_iff] at hnone
    rw [counter_of_not_accepted hnone]
  have hshown : ∀ system event tick, CountsSafely program system event →
      reportedTick program system event = some tick →
        (system.locals.frameSyncCounter.toNat : Int) ≤ tick ∧
          tick < (System.step program system event).locals.frameSyncCounter.toNat := by
    intro system event tick hsafe htick
    have haccepted := htick
    rw [reportedTick_eq, Option.map_eq_some_iff] at haccepted
    obtain ⟨frame, hframe, -⟩ := haccepted
    obtain ⟨hreported, hlt⟩ := hsafe.counter_lt hframe
    obtain rfl := Option.some.inj (hreported.symm.trans htick)
    exact ⟨le_refl _, Int.ofNat_lt.mpr hlt⟩
  obtain ⟨hbound, hincreasing⟩ := h.increasing hquiet hshown
  refine ⟨fun tick htick => ?_, hincreasing, h.mono fun _ _ hsafe => hsafe.advancesOnSync⟩
  exact (Int.natCast_nonneg _).trans (hbound tick htick)

theorem safe_of_ticksForward {program : Program} {system : System} {events : List Event}
    (h : TicksForward program system events) :
    Along (System.step program) (CountsSafely program) system events := by
  induction events generalizing system with
  | nil => trivial
  | cons event events ih =>
      obtain ⟨hnonneg, hincreasing, hadvances⟩ := h
      rw [observed] at hnonneg hincreasing
      refine ⟨countsSafely_of_forward (fun tick htick => ?_) hadvances.1, ih ⟨?_, ?_, ?_⟩⟩
      · refine hnonneg tick (List.mem_append_left _ ?_)
        rw [htick]
        exact List.mem_singleton_self tick
      · exact fun tick htick => hnonneg tick (List.mem_append_right _ htick)
      · exact (List.pairwise_append.mp hincreasing).2.1
      · exact hadvances.2

/--
Ticks move forward in exactly the runs in which the counter is an `int` at every
accepted frame and no short sync frame finds a larger number in the buffer.
-/
theorem ticksForward_iff (program : Program) (config : ConfigParser) (hash : StringMap)
    (fr : CanFrame) (events : List Event) :
    TicksForward program (.initial config hash fr) events ↔
      Along (System.step program) (CountsSafely program) (.initial config hash fr) events :=
  ⟨safe_of_ticksForward, ticksForward_of_safe⟩

/-- A sync frame without data after a frame with two bytes. -/
def emptySync : List Event :=
  [.pass { received := some (sevens 200 2 two_len_le) },
   .pass { received := some (sevens 42 0 zero_len_le) }]

theorem emptySync_advances :
    ¬ TicksForward .acceptAll (.initial (.loadConfigFile ∅) ∅ (filled 0)) emptySync := by
  intro h
  have hadvances := h.advances.2.1
  obtain ⟨frame, hframe, -, low, high, rest, hbytes, -⟩ := hadvances (by decide +kernel)
  obtain rfl : sevens 42 0 zero_len_le = frame := Option.some.inj hframe
  cases hbytes

end Can2Rest.Properties

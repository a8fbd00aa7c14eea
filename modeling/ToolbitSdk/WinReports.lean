/-
# The reports on Windows

The overlapped `hid_read_timeout` of `hidapi/windows/hid.c`. A call starts a
read unless one is pending, and where none has come in time leaves it for the
next call. Reports arrive at any point of this, in the read that is in flight
or else in the driver's buffer of 64 (`HidD_SetNumInputBuffers`), which loses
the oldest when it is full.

No report is lost by a call that gives up, and none comes twice
(`WinHistory.reads_keep_order`). The event, which a read may leave signaled and
which `ResetEvent` clears, says whether the pending read has ended, so a call
with a time-out never waits for the result (`WinHistory.never_blocks`).

The service makes each call with the mutex of `TbiDevice` (`WinSys`). As on
macOS, each of its runs is one of the system with a list of reports without
bound (`WinSys.win_refines`).

What Windows and the driver do is not in the source, and the steps assume it of
them. `ReadFile` takes the oldest report of the driver's buffer, and leaves the
read in flight if there is none. A report ends the read that is in flight, if
one is, is else buffered, and only the end of a read signals its event.
`WaitForSingleObject` leaves the event cleared, and `GetOverlappedResult` waits
for the end of the read alone. No report is longer than `input_report_length`
(`WinHistory.Fits`).
-/
import ToolbitSdk.MacReports

namespace ToolbitSdk

open Bytes
open scoped List

/-! ### The handle -/

/-- What `ol` says of the read that was started last, once its result has
been taken nothing. -/
inductive Overlapped
  | unused
  | inFlight
  | done (bytes_read : ℕ)
  | failed
  deriving DecidableEq

/-- Where a call of `hid_read_timeout` is. -/
inductive ReadPc
  | idle
  | readFile (milliseconds : ℤ)
  | wait (milliseconds : ℤ)
  | getResult (milliseconds : ℤ)
  deriving DecidableEq

/-- The time-out of the call that is under way. -/
def ReadPc.milliseconds : ReadPc → Option ℤ
  | idle => none
  | readFile milliseconds | wait milliseconds | getResult milliseconds => some milliseconds

/-- The steps a call has left at most. -/
def ReadPc.left : ReadPc → ℕ
  | idle => 0
  | readFile _ => 3
  | wait _ => 2
  | getResult _ => 1

/-- What `hid_read_timeout` uses of `hid_device`, and the reports that the
driver keeps for it. -/
structure WinDevice where
  read_pending : Bool
  read_buf : List Byte
  hEvent : Bool
  ol : Overlapped
  buffers : List (List Byte)
  pc : ReadPc

/-- What the environment decides in a step: `ReadFile` fails, or ends at once
though it is overlapped; `GetOverlappedResult` resets the event. -/
structure WinEnv where
  fails : Bool
  sync : Bool
  resets : Bool

namespace WinDevice

/-- As `hid_open_path` leaves it, the memory of `read_buf` as `malloc` finds
it. -/
def opened (read_buf : List Byte) : WinDevice := ⟨false, read_buf, false, .unused, [], .idle⟩

/-- The driver ends the read with a report. -/
def complete (dev : WinDevice) (rpt : List Byte) : WinDevice :=
  { dev with read_buf := overlay rpt dev.read_buf, hEvent := true, ol := .done rpt.length }

def arrive (dev : WinDevice) (rpt : List Byte) : WinDevice :=
  if dev.ol = .inFlight then dev.complete rpt else { dev with buffers := DropQueue.push 64 dev.buffers rpt }

/-- The read that is in flight fails. -/
def failure (dev : WinDevice) : Option WinDevice :=
  if dev.ol = .inFlight then some { dev with hEvent := true, ol := .failed } else none

/-- What is copied to `data`, without a report number of 0. -/
def copied (length : ℕ) (read_buf : List Byte) (bytes_read : ℕ) : List Byte :=
  if 0 < bytes_read then
    if read_buf.headD 0 = 0 then (read_buf.drop 1).take (min length (bytes_read - 1))
    else read_buf.take (min length bytes_read)
  else []

/-- The call returns, and leaves the read. -/
def leave (dev : WinDevice) : Option ReadResult × WinDevice := (some .nothing, { dev with pc := .idle })

/-- The call returns with the read's result. -/
def finish (dev : WinDevice) (r : ReadResult) : Option ReadResult × WinDevice :=
  (some r, { dev with read_pending := false, ol := .unused, pc := .idle })

/-- `hid_read_timeout` is called, and what it returns at once; without `data`
`length` stands for 0. -/
def call (length : ℕ) (dev : WinDevice) (milliseconds : ℤ) :
    Option (Option ReadResult × WinDevice) :=
  if dev.pc = .idle then
    if length = 0 then some (some .error, dev)
    else if !dev.read_pending then
      some (none, { dev with
        read_pending := true
        read_buf := List.replicate dev.read_buf.length 0
        hEvent := false
        pc := .readFile milliseconds })
    else some (none, { dev with pc := .wait milliseconds })
  else none

/-- The next access of the call to what it shares with the driver, and what
it returns if that is the last; `none` while it waits. -/
def next (length : ℕ) (dev : WinDevice) (env : WinEnv) : Option (Option ReadResult × WinDevice) :=
  match dev.pc with
  | .idle => none
  | .readFile milliseconds =>
    if env.fails then some (dev.finish .error)
    else match dev.buffers with
      | [] => some (none, { dev with ol := .inFlight, pc := .wait milliseconds })
      | rpt :: buffers =>
        let dev := { dev with buffers }.complete rpt
        if env.sync then some (dev.finish (.bytes (copied length dev.read_buf rpt.length)))
        else some (none, { dev with pc := .wait milliseconds })
  | .wait milliseconds =>
    if 0 ≤ milliseconds then
      if dev.hEvent then some (none, { dev with hEvent := false, pc := .getResult milliseconds }) else some dev.leave
    else some (none, { dev with pc := .getResult milliseconds })
  | .getResult _ =>
    match dev.ol with
    | .done bytes_read =>
      some ({ dev with hEvent := dev.hEvent && !env.resets }.finish (.bytes (copied length dev.read_buf bytes_read)))
    | .failed => some ({ dev with hEvent := dev.hEvent && !env.resets }.finish .error)
    | .inFlight | .unused => none

/-! ### What holds of it -/

section

variable (dev : WinDevice)

/-- The report that has ended the read, before the call has its result. -/
def ended : List (List Byte) :=
  match dev.ol with
  | .done n => [dev.read_buf.take n]
  | _ => []

/-- The reports that have come and have not been read, in order. -/
def waits : List (List Byte) := dev.ended ++ dev.buffers

/-- What the event says of the pending read. -/
inductive Signals : Prop
  | inFlight : dev.ol = .inFlight → dev.buffers = [] → dev.hEvent = false → Signals
  | done {n : ℕ} : dev.ol = .done n → n ≤ dev.read_buf.length → dev.hEvent = true → Signals
  | failed : dev.ol = .failed → dev.hEvent = true → Signals

/-- What `GetOverlappedResult` finds: it has no need to wait, if the event
has been waited for. -/
inductive Ends (milliseconds : ℤ) : Prop
  | inFlight : dev.ol = .inFlight → dev.buffers = [] → dev.hEvent = false → milliseconds < 0 → Ends milliseconds
  | done {n : ℕ} : dev.ol = .done n → n ≤ dev.read_buf.length → Ends milliseconds
  | failed : dev.ol = .failed → Ends milliseconds

/-- Between the calls a read has been started exactly if one is pending. -/
inductive Phased : Prop
  | free : dev.pc = .idle → dev.read_pending = false → dev.ol = .unused → Phased
  | left : dev.pc = .idle → dev.read_pending = true → dev.Signals → Phased
  | starting {milliseconds : ℤ} : dev.pc = .readFile milliseconds → dev.read_pending = true → dev.ol = .unused →
      dev.hEvent = false → Phased
  | waiting {milliseconds : ℤ} : dev.pc = .wait milliseconds → dev.read_pending = true → dev.Signals → Phased
  | ending {milliseconds : ℤ} : dev.pc = .getResult milliseconds → dev.read_pending = true →
      dev.Ends milliseconds → Phased

/-- The handle in a run: `input_report_length` bytes are enough for each
report. -/
structure Ok (input_report_length : ℕ) : Prop where
  size : dev.read_buf.length = input_report_length
  fits : ∀ rpt ∈ dev.buffers, rpt.length ≤ input_report_length
  few : dev.buffers.length ≤ 64
  phased : dev.Phased

end

/-- What a call returns of a report. -/
def strip (length : ℕ) (rpt : List Byte) : List Byte := copied length rpt rpt.length

theorem copied_eq {length n : ℕ} {read_buf : List Byte} (h : n ≤ read_buf.length) :
    copied length read_buf n = strip length (read_buf.take n) := by
  unfold strip copied
  rw [List.length_take_of_le h]
  split
  · have hhead : (read_buf.take n).headD 0 = read_buf.headD 0 := by
      cases n with
      | zero => omega
      | succ n => cases read_buf <;> rfl
    rw [hhead, List.drop_take, List.take_take, List.take_take, min_assoc, min_assoc, min_self, min_self]
  · rfl

theorem copied_overlay {length : ℕ} {rpt read_buf : List Byte} (h : rpt.length ≤ read_buf.length) :
    copied length (overlay rpt read_buf) rpt.length = strip length rpt := by
  rw [copied_eq (h.trans (length_overlay h).ge), take_overlay _ le_rfl, List.take_length]

theorem strip_cons_zero (length : ℕ) (dat : List Byte) (h : dat.length ≤ length) :
    strip length (0 :: dat) = dat := by
  have hpos : 0 < (0 :: dat).length := Nat.succ_pos _
  rw [strip, copied, if_pos hpos, List.headD_cons, if_pos rfl]
  exact List.take_of_length_le (by simp [h])

section

variable {dev dev' : WinDevice} {input_report_length : ℕ}

theorem waits_of_ol (h : ∀ n, dev.ol ≠ .done n) : dev.waits = dev.buffers := by
  unfold waits ended
  cases ho : dev.ol with
  | done n => exact absurd ho (h n)
  | unused | inFlight | failed => rfl

theorem waits_of_done {n : ℕ} (h : dev.ol = .done n) :
    dev.waits = dev.read_buf.take n :: dev.buffers := by
  rw [waits, ended, h]
  rfl

theorem complete_size {rpt : List Byte} (h : rpt.length ≤ dev.read_buf.length) :
    (dev.complete rpt).read_buf.length = dev.read_buf.length :=
  length_overlay h

theorem waits_complete (dev : WinDevice) (rpt : List Byte) :
    (dev.complete rpt).waits = rpt :: dev.buffers := by
  rw [waits_of_done (n := rpt.length) rfl]
  exact congrArg (· :: dev.buffers) (by rw [complete, take_overlay _ le_rfl, List.take_length])

theorem Signals.complete {rpt : List Byte} (h : rpt.length ≤ dev.read_buf.length) :
    (dev.complete rpt).Signals :=
  .done rfl (h.trans (complete_size h).ge) rfl

theorem Signals.pc (h : dev.Signals) (pc : ReadPc) : { dev with pc := pc }.Signals := by
  cases h with
  | inFlight ho hb he => exact .inFlight ho hb he
  | done ho hn he => exact .done ho hn he
  | failed ho he => exact .failed ho he

/-- The buffers matter only to a read that is in flight. -/
theorem Signals.buffers (h : dev.Signals) (hf : dev.ol ≠ .inFlight) (buffers : List (List Byte)) :
    { dev with buffers := buffers }.Signals := by
  cases h with
  | inFlight ho _ _ => exact absurd ho hf
  | done ho hn he => exact .done ho hn he
  | failed ho he => exact .failed ho he

theorem Phased.buffers (h : dev.Phased) (hf : dev.ol ≠ .inFlight) (buffers : List (List Byte)) :
    { dev with buffers := buffers }.Phased := by
  cases h with
  | free hpc hp ho => exact .free hpc hp ho
  | left hpc hp hs => exact .left hpc hp (hs.buffers hf buffers)
  | starting hpc hp ho he => exact .starting hpc hp ho he
  | waiting hpc hp hs => exact .waiting hpc hp (hs.buffers hf buffers)
  | ending hpc hp hends =>
    refine .ending hpc hp ?_
    cases hends with
    | inFlight ho _ _ _ => exact absurd ho hf
    | done ho hn => exact .done ho hn
    | failed ho => exact .failed ho

/-- A read is in flight only while the driver has no report for it. -/
theorem Phased.of_inFlight (h : dev.Phased) (hf : dev.ol = .inFlight) :
    dev.buffers = [] ∧ dev.read_pending = true ∧ dev.hEvent = false ∧
      (dev.pc = .idle ∨ (∃ milliseconds, dev.pc = .wait milliseconds) ∨
        ∃ milliseconds, dev.pc = .getResult milliseconds ∧ milliseconds < 0) := by
  have hsig (hs : dev.Signals) : dev.buffers = [] ∧ dev.hEvent = false := by
    cases hs with
    | inFlight _ hb he => exact ⟨hb, he⟩
    | done ho _ _ | failed ho _ => rw [hf] at ho; cases ho
  cases h with
  | free _ _ ho | starting _ _ ho _ => rw [hf] at ho; cases ho
  | left hpc hp hs => exact ⟨(hsig hs).1, hp, (hsig hs).2, .inl hpc⟩
  | waiting hpc hp hs => exact ⟨(hsig hs).1, hp, (hsig hs).2, .inr (.inl ⟨_, hpc⟩)⟩
  | ending hpc hp hends =>
    cases hends with
    | inFlight _ hb he hlt => exact ⟨hb, hp, he, .inr (.inr ⟨_, hpc, hlt⟩)⟩
    | done ho _ | failed ho => rw [hf] at ho; cases ho

theorem Phased.complete (h : dev.Phased) (hf : dev.ol = .inFlight) {rpt : List Byte}
    (hrpt : rpt.length ≤ dev.read_buf.length) : (dev.complete rpt).Phased := by
  obtain ⟨-, hp, -, hpc | ⟨_, hpc⟩ | ⟨_, hpc, -⟩⟩ := h.of_inFlight hf
  · exact .left hpc hp (.complete hrpt)
  · exact .waiting hpc hp (.complete hrpt)
  · exact .ending hpc hp (.done rfl (hrpt.trans (complete_size hrpt).ge))

theorem ok_opened (read_buf : List Byte) : (opened read_buf).Ok read_buf.length :=
  ⟨rfl, fun _ h => absurd h List.not_mem_nil, Nat.zero_le _, .free rfl rfl rfl⟩

/-- A report that comes waits behind the others; the oldest in a full buffer
is lost. -/
theorem Ok.arrive (h : dev.Ok input_report_length) {rpt : List Byte} (hrpt : rpt.length ≤ input_report_length) :
    (dev.arrive rpt).Ok input_report_length ∧
      (dev.arrive rpt).waits = dev.ended ++ DropQueue.push 64 dev.buffers rpt := by
  have hsize : rpt.length ≤ dev.read_buf.length := hrpt.trans h.size.ge
  unfold WinDevice.arrive
  by_cases hf : dev.ol = .inFlight
  · rw [if_pos hf]
    refine ⟨⟨(complete_size hsize).trans h.size, h.fits, h.few, h.phased.complete hf hsize⟩, ?_⟩
    rw [waits_complete, (h.phased.of_inFlight hf).1, ended, hf]
    rfl
  · rw [if_neg hf]
    refine ⟨⟨h.size, fun r hr => ?_, DropQueue.length_push_le (by decide) h.few rpt,
      h.phased.buffers hf _⟩, rfl⟩
    rcases List.mem_append.mp ((DropQueue.push_sublist dev.buffers rpt).subset hr) with hr | hr
    · exact h.fits r hr
    · rw [List.mem_singleton.mp hr]
      exact hrpt

theorem Ok.failure (h : dev.Ok input_report_length) (hs : dev.failure = some dev') :
    dev'.Ok input_report_length ∧ dev'.waits = dev.waits := by
  unfold WinDevice.failure at hs
  split at hs
  · rename_i hf
    cases hs
    refine ⟨⟨h.size, h.fits, h.few, ?_⟩, ?_⟩
    · obtain ⟨-, hp, -, hpc | ⟨_, hpc⟩ | ⟨_, hpc, -⟩⟩ := h.phased.of_inFlight hf
      · exact .left hpc hp (.failed rfl rfl)
      · exact .waiting hpc hp (.failed rfl rfl)
      · exact .ending hpc hp (.failed rfl)
    · have hwaits : dev.waits = dev.buffers := waits_of_ol fun n hn => by rw [hf] at hn; cases hn
      rw [hwaits]
      exact waits_of_ol fun n hn => by cases hn
  · cases hs

theorem Ok.complete (h : dev.Ok input_report_length) {rpt : List Byte} (hrpt : rpt.length ≤ input_report_length)
    {pc : ReadPc} (hphased : { dev.complete rpt with pc := pc }.Phased) :
    { dev.complete rpt with pc := pc }.Ok input_report_length :=
  ⟨(complete_size (hrpt.trans h.size.ge)).trans h.size, h.fits, h.few, hphased⟩

theorem Ok.finish (h : dev.Ok input_report_length) (r : ReadResult) :
    (dev.finish r).2.Ok input_report_length :=
  ⟨h.size, h.fits, h.few, .free rfl rfl rfl⟩

theorem waits_finish (dev : WinDevice) (r : ReadResult) : (dev.finish r).2.waits = dev.buffers :=
  waits_of_ol fun _ hn => by cases hn

theorem waits_complete_pc (dev : WinDevice) (rpt : List Byte) (pc : ReadPc) :
    { dev.complete rpt with pc := pc }.waits = rpt :: dev.buffers :=
  waits_complete dev rpt

/-- What a call does with the reports that wait: it returns the first, or
leaves them. -/
structure Moved (length : ℕ) (dev dev' : WinDevice) (r : Option ReadResult) : Prop where
  bytes : ∀ data, r = some (.bytes data) → ∃ rpt, data = strip length rpt ∧ dev.waits = rpt :: dev'.waits
  waits : (∀ data, r ≠ some (.bytes data)) → dev'.waits = dev.waits

/-- A call that returns no bytes leaves them. -/
theorem Moved.stay {length : ℕ} {r : Option ReadResult} (hr : r.bind ReadResult.data = none)
    (hw : dev'.waits = dev.waits) : Moved length dev dev' r := by
  refine ⟨fun data h => ?_, fun _ => hw⟩
  rw [h] at hr
  cases hr

theorem Moved.took {length : ℕ} {rpt : List Byte} (hw : dev.waits = rpt :: dev'.waits) :
    Moved length dev dev' (some (.bytes (strip length rpt))) :=
  ⟨fun _ h => ⟨rpt, (ReadResult.bytes.inj (Option.some.inj h)).symm, hw⟩, fun h => absurd rfl (h _)⟩

/-- A call that finds a read pending leaves its buffer alone. -/
theorem Ok.call (h : dev.Ok input_report_length) {length : ℕ} {milliseconds : ℤ} {r : Option ReadResult}
    (hs : dev.call length milliseconds = some (r, dev')) :
    dev'.Ok input_report_length ∧ Moved length dev dev' r := by
  rw [WinDevice.call, Option.ite_none_right_eq_some] at hs
  obtain ⟨hpc, hs⟩ := hs
  split at hs
  · cases hs
    exact ⟨h, .stay rfl rfl⟩
  split at hs
  · rename_i hr
    cases hs
    have ho : dev.ol = .unused := by
      cases h.phased with
      | free _ _ ho => exact ho
      | left _ hp _ | starting _ hp _ _ | waiting _ hp _ | ending _ hp _ => rw [hp] at hr; cases hr
    have hwaits : dev.waits = dev.buffers := waits_of_ol fun n hn => by rw [ho] at hn; cases hn
    refine ⟨⟨by rw [List.length_replicate, h.size], h.fits, h.few, .starting rfl rfl ho rfl⟩,
      .stay rfl ?_⟩
    rw [hwaits]
    exact waits_of_ol fun n hn => by rw [ho] at hn; cases hn
  · rename_i hr
    cases hs
    refine ⟨⟨h.size, h.fits, h.few, ?_⟩, .stay rfl rfl⟩
    cases h.phased with
    | left _ hp hsig => exact .waiting rfl hp (hsig.pc _)
    | free _ hp _ =>
      rw [hp] at hr
      exact absurd rfl hr
    | starting hpc' _ _ _ | waiting hpc' _ _ | ending hpc' _ _ => rw [hpc] at hpc'; cases hpc'

/-- A call with a buffer does not return at once. -/
theorem call_returned {length : ℕ} {milliseconds : ℤ} {r : Option ReadResult}
    (hs : dev.call length milliseconds = some (r, dev')) (hlen : length ≠ 0) : r = none := by
  rw [WinDevice.call, Option.ite_none_right_eq_some, if_neg hlen] at hs
  obtain ⟨-, hs⟩ := hs
  split at hs <;> (cases hs; rfl)

/-- `ReadFile` has a report at once, or leaves the read in flight. -/
theorem Ok.readFile (h : dev.Ok input_report_length) {milliseconds : ℤ} (hpc : dev.pc = .readFile milliseconds)
    (hp : dev.read_pending = true) (ho : dev.ol = .unused) (he : dev.hEvent = false) {length : ℕ} {env : WinEnv}
    {r : Option ReadResult} (hs : dev.next length env = some (r, dev')) :
    dev'.Ok input_report_length ∧ Moved length dev dev' r := by
  have hwaits : dev.waits = dev.buffers := waits_of_ol fun n hn => by rw [ho] at hn; cases hn
  unfold WinDevice.next at hs
  simp only [hpc] at hs
  split at hs
  · cases hs
    exact ⟨h.finish .error, .stay rfl ((waits_finish dev .error).trans hwaits.symm)⟩
  rcases hb : dev.buffers with _ | ⟨rpt, buffers⟩
  · simp only [hb] at hs
    cases hs
    refine ⟨⟨h.size, fun rpt hrpt => absurd hrpt List.not_mem_nil, Nat.zero_le _,
      .waiting rfl hp (.inFlight rfl rfl he)⟩, .stay rfl ?_⟩
    rw [hwaits, hb]
    exact waits_of_ol fun n hn => by cases hn
  · simp only [hb] at hs
    have hmem : ∀ rpt' ∈ rpt :: buffers, rpt'.length ≤ input_report_length := hb ▸ h.fits
    have hfew : (rpt :: buffers).length ≤ 64 := hb ▸ h.few
    have hrpt : rpt.length ≤ dev.read_buf.length := (hmem rpt List.mem_cons_self).trans h.size.ge
    have hrest : ({ dev with buffers := buffers } : WinDevice).Ok input_report_length :=
      ⟨h.size, fun rpt' h' => hmem rpt' (List.mem_cons_of_mem _ h'), (Nat.le_succ _).trans hfew,
        h.phased.buffers (by rw [ho]; decide) buffers⟩
    have hsig : ({ dev with buffers := buffers }.complete rpt).Signals := .complete hrpt
    have hphased : { { dev with buffers := buffers }.complete rpt with pc := .wait milliseconds }.Phased :=
      .waiting rfl hp (hsig.pc _)
    have hpending := hrest.complete (hmem rpt List.mem_cons_self) hphased
    split at hs
    · cases hs
      refine ⟨hpending.finish .nothing, ?_⟩
      simp only [WinDevice.complete, copied_overlay hrpt]
      refine .took ?_
      rw [hwaits, hb]
      exact congrArg _ (waits_finish { dev with buffers := buffers } .nothing).symm
    · cases hs
      refine ⟨hpending, .stay rfl ?_⟩
      rw [hwaits, hb]
      exact waits_complete_pc { dev with buffers } rpt (.wait milliseconds)

theorem Ok.wait (h : dev.Ok input_report_length) {milliseconds : ℤ} (hpc : dev.pc = .wait milliseconds)
    (hp : dev.read_pending = true) (hsig : dev.Signals) {length : ℕ} {env : WinEnv} {r : Option ReadResult}
    (hs : dev.next length env = some (r, dev')) :
    dev'.Ok input_report_length ∧ Moved length dev dev' r := by
  simp only [WinDevice.next, hpc] at hs
  split at hs
  · split at hs
    · rename_i he
      cases hs
      refine ⟨⟨h.size, h.fits, h.few, .ending rfl hp ?_⟩, .stay rfl rfl⟩
      cases hsig with
      | inFlight _ _ he' => rw [he] at he'; cases he'
      | done ho hn _ => exact .done ho hn
      | failed ho _ => exact .failed ho
    · cases hs
      exact ⟨⟨h.size, h.fits, h.few, .left rfl hp (hsig.pc .idle)⟩, .stay rfl rfl⟩
  · rename_i hlt
    cases hs
    refine ⟨⟨h.size, h.fits, h.few, .ending rfl hp ?_⟩, .stay rfl rfl⟩
    cases hsig with
    | inFlight ho hb he => exact .inFlight ho hb he (not_le.mp hlt)
    | done ho hn _ => exact .done ho hn
    | failed ho _ => exact .failed ho

theorem Ok.getResult (h : dev.Ok input_report_length) {milliseconds : ℤ} (hpc : dev.pc = .getResult milliseconds)
    (hends : dev.Ends milliseconds) {length : ℕ} {env : WinEnv} {r : Option ReadResult}
    (hs : dev.next length env = some (r, dev')) :
    dev'.Ok input_report_length ∧ Moved length dev dev' r := by
  simp only [WinDevice.next, hpc] at hs
  cases hends with
  | inFlight ho _ _ _ =>
    rw [ho] at hs
    cases hs
  | failed ho =>
    rw [ho] at hs
    cases hs
    refine ⟨⟨h.size, h.fits, h.few, .free rfl rfl rfl⟩, .stay rfl ?_⟩
    have hwaits : dev.waits = dev.buffers := waits_of_ol fun n hn => by rw [ho] at hn; cases hn
    rw [hwaits]
    exact waits_finish dev .error
  | @done n ho hn =>
    rw [ho] at hs
    cases hs
    refine ⟨⟨h.size, h.fits, h.few, .free rfl rfl rfl⟩, ?_⟩
    rw [copied_eq hn]
    exact .took (by rw [waits_of_done ho]; exact congrArg _ (waits_finish dev .nothing).symm)

/-- A call returns the first of the reports that wait, or leaves them. -/
theorem Ok.next (h : dev.Ok input_report_length) {length : ℕ} {env : WinEnv} {r : Option ReadResult}
    (hs : dev.next length env = some (r, dev')) :
    dev'.Ok input_report_length ∧ Moved length dev dev' r := by
  cases h.phased with
  | free hpc _ _ | left hpc _ _ =>
    rw [WinDevice.next, hpc] at hs
    cases hs
  | starting hpc hp ho he => exact h.readFile hpc hp ho he hs
  | waiting hpc hp hsig => exact h.wait hpc hp hsig hs
  | ending hpc _ hends => exact h.getResult hpc hends hs

theorem next_returned {length : ℕ} {env : WinEnv} {r : ReadResult}
    (hs : dev.next length env = some (some r, dev')) : dev'.pc = .idle := by
  unfold WinDevice.next at hs
  cases hpc : dev.pc with
  | idle =>
    rw [hpc] at hs
    cases hs
  | readFile milliseconds =>
    simp only [hpc] at hs
    split at hs
    · cases hs
      rfl
    rcases hb : dev.buffers with _ | ⟨rpt, buffers⟩
    · simp only [hb] at hs
      cases hs
    · simp only [hb] at hs
      split at hs
      · cases hs
        rfl
      · cases hs
  | wait milliseconds =>
    simp only [hpc] at hs
    split at hs
    · split at hs
      · cases hs
      · cases hs
        rfl
    · cases hs
  | getResult milliseconds =>
    simp only [hpc] at hs
    cases ho : dev.ol with
    | done n | failed =>
      rw [ho] at hs
      cases hs
      rfl
    | inFlight | unused =>
      rw [ho] at hs
      cases hs

/-- The event is waited for first, so that `GetOverlappedResult` need not
wait. -/
theorem Phased.exists_next (h : dev.Phased) {milliseconds : ℤ} (hms : dev.pc.milliseconds = some milliseconds)
    (hlong : 0 ≤ milliseconds ∨ dev.ol ≠ .inFlight) (length : ℕ) (env : WinEnv) :
    ∃ x, dev.next length env = some x ∧ x.2.pc.left < dev.pc.left := by
  cases h with
  | free hpc _ _ | left hpc _ _ =>
    rw [hpc] at hms
    cases hms
  | @starting ms hpc _ _ _ =>
    have hreturns : (ReadPc.idle).left < (ReadPc.readFile ms).left := Nat.succ_pos 2
    have hwaits : (ReadPc.wait ms).left < (ReadPc.readFile ms).left := Nat.lt_succ_self 2
    rw [hpc]
    simp only [WinDevice.next, hpc]
    split
    · exact ⟨_, rfl, hreturns⟩
    rcases dev.buffers with _ | ⟨rpt, buffers⟩
    · exact ⟨_, rfl, hwaits⟩
    · dsimp only
      split
      · exact ⟨_, rfl, hreturns⟩
      · exact ⟨_, rfl, hwaits⟩
  | @waiting ms hpc _ _ =>
    have hreturns : (ReadPc.idle).left < (ReadPc.wait ms).left := Nat.succ_pos 1
    have hgoes : (ReadPc.getResult ms).left < (ReadPc.wait ms).left := Nat.lt_succ_self 1
    rw [hpc]
    simp only [WinDevice.next, hpc]
    split
    · split
      · exact ⟨_, rfl, hgoes⟩
      · exact ⟨_, rfl, hreturns⟩
    · exact ⟨_, rfl, hgoes⟩
  | @ending ms hpc _ hends =>
    rw [hpc] at hms ⊢
    cases hms
    simp only [WinDevice.next, hpc]
    cases hends with
    | inFlight ho _ _ hlt => exact absurd ho (hlong.resolve_left (not_le.mpr hlt))
    | done ho _ | failed ho =>
      rw [ho]
      exact ⟨_, rfl, Nat.one_pos⟩

end

end WinDevice

/-! ### Its runs -/

/-- A handle with what has come for it, how many of these were lost, and what
the calls have returned. -/
structure WinHistory where
  dev : WinDevice
  arrived : List (List Byte)
  lost : ℕ
  results : List ReadResult

/-- A report comes, the read in flight fails, `hid_read_timeout` is called, or
goes on. -/
inductive WinEvent
  | report (data : List Byte)
  | failure
  | call (milliseconds : ℤ)
  | next (env : WinEnv)

namespace WinHistory

open MacDevice (reads)
open WinDevice (strip)

def opened (read_buf : List Byte) : WinHistory := ⟨.opened read_buf, [], 0, []⟩

/-- A call has gone on, or has returned. -/
def after (h : WinHistory) (x : Option ReadResult × WinDevice) : WinHistory :=
  { h with dev := x.2, results := h.results ++ x.1.toList }

/-- Each call has a buffer of `length` bytes. -/
def step (length : ℕ) (h : WinHistory) : WinEvent → Option WinHistory
  | .report data =>
    some { h with
      dev := h.dev.arrive data
      arrived := h.arrived ++ [data]
      lost := h.lost + if h.dev.ol = .inFlight ∨ h.dev.buffers.length < 64 then 0 else 1 }
  | .failure => h.dev.failure.map fun dev => { h with dev }
  | .call milliseconds => (h.dev.call length milliseconds).map h.after
  | .next env => (h.dev.next length env).map h.after

/-- No report is longer than the device said. -/
def Fits (h : WinHistory) : WinEvent → Prop
  | .report data => data.length ≤ h.dev.read_buf.length
  | _ => True

instance (h : WinHistory) : DecidablePred h.Fits
  | .report data => inferInstanceAs (Decidable (data.length ≤ h.dev.read_buf.length))
  | .failure | .call _ | .next _ => .isTrue trivial

/-- What a run keeps. -/
structure Ordered (length input_report_length : ℕ) (h : WinHistory) : Prop where
  ok : h.dev.Ok input_report_length
  order : reads h.results ++ h.dev.waits.map (strip length) <+ h.arrived.map (strip length)
  count : (reads h.results).length + h.dev.waits.length + h.lost = h.arrived.length

section

variable {length input_report_length : ℕ} {h h' : WinHistory}

theorem ordered_opened (read_buf : List Byte) : Ordered length read_buf.length (opened read_buf) :=
  ⟨WinDevice.ok_opened read_buf, .refl _, rfl⟩

theorem reads_concat (rs : List ReadResult) (r : Option ReadResult) :
    reads (rs ++ r.toList) = reads rs ++ (r.bind ReadResult.data).toList := by
  unfold MacDevice.reads
  rw [List.map_append, List.reduceOption_append]
  rcases r with _ | _ | _ | data <;> rfl

theorem Ordered.report (ho : Ordered length input_report_length h) {data : List Byte}
    (hfits : data.length ≤ h.dev.read_buf.length) (hs : h.step length (.report data) = some h') :
    Ordered length input_report_length h' := by
  cases hs
  obtain ⟨hok, hw⟩ := ho.ok.arrive (hfits.trans ho.ok.size.le)
  have hlen := DropQueue.length_push_add (N := 64) h.dev.buffers data
  have hwaits : h.dev.waits = h.dev.ended ++ h.dev.buffers := rfl
  refine ⟨hok, ?_, ?_⟩
  · have hsub : h.dev.ended ++ DropQueue.push 64 h.dev.buffers data <+ h.dev.waits ++ [data] := by
      rw [hwaits, List.append_assoc]
      exact (DropQueue.push_sublist _ _).append_left _
    have happ : (h.dev.waits ++ [data]).map (strip length) = h.dev.waits.map (strip length) ++ [strip length data] :=
      List.map_append
    have harr : (h.arrived ++ [data]).map (strip length) = h.arrived.map (strip length) ++ [strip length data] :=
      List.map_append
    have hmap := (hsub.map (strip length)).append_left (reads h.results)
    rw [happ, ← List.append_assoc] at hmap
    rw [hw]
    exact harr ▸ hmap.trans (ho.order.append_right _)
  · have hcount := ho.count
    rw [hwaits, List.length_append] at hcount
    rw [hw]
    dsimp only
    rw [List.length_append, List.length_append, List.length_singleton]
    by_cases hf : h.dev.ol = .inFlight
    · have hb := (ho.ok.phased.of_inFlight hf).1
      rw [if_pos (.inl hf)]
      rw [hb] at hlen hcount ⊢
      rw [if_pos (by decide)] at hlen
      simp only [List.length_nil] at hlen hcount
      omega
    · by_cases hroom : h.dev.buffers.length < 64
      · rw [if_pos (.inr hroom)]
        rw [if_pos hroom] at hlen
        omega
      · rw [if_neg (not_or.mpr ⟨hf, hroom⟩)]
        rw [if_neg hroom] at hlen
        omega

theorem Ordered.after (ho : Ordered length input_report_length h) {r : Option ReadResult} {dev : WinDevice}
    (hok : dev.Ok input_report_length) (hmoved : WinDevice.Moved length h.dev dev r) :
    Ordered length input_report_length (h.after (r, dev)) := by
  have hcount := ho.count
  have horder := ho.order
  by_cases hr : ∃ data, r = some (.bytes data)
  · obtain ⟨data, rfl⟩ := hr
    obtain ⟨rpt, rfl, hw⟩ := hmoved.bytes data rfl
    rw [hw] at hcount horder
    have hreads : reads (h.results ++ [.bytes (strip length rpt)]) = reads h.results ++ [strip length rpt] :=
      reads_concat h.results (some (.bytes (strip length rpt)))
    refine ⟨hok, ?_, ?_⟩
    · rw [WinHistory.after, Option.toList_some, hreads, List.append_assoc]
      exact horder
    · rw [WinHistory.after, Option.toList_some, hreads, List.length_append, List.length_singleton]
      dsimp only
      rw [List.length_cons] at hcount
      omega
  · have hreads : reads (h.results ++ r.toList) = reads h.results := by
      rw [reads_concat]
      rcases r with _ | _ | _ | data
      · rw [Option.bind_none, Option.toList_none, List.append_nil]
      · exact List.append_nil _
      · exact List.append_nil _
      · exact absurd ⟨data, rfl⟩ hr
    have hw := hmoved.waits fun data he => hr ⟨data, he⟩
    refine ⟨hok, ?_, ?_⟩
    · rw [WinHistory.after, hreads, hw]
      exact horder
    · rw [WinHistory.after, hreads, hw]
      exact hcount

theorem Ordered.step (ho : Ordered length input_report_length h) {e : WinEvent} (hfits : h.Fits e)
    (hs : h.step length e = some h') : Ordered length input_report_length h' := by
  cases e with
  | report data => exact ho.report hfits hs
  | next env =>
    obtain ⟨⟨r, dev⟩, hd, rfl⟩ := Option.map_eq_some_iff.mp hs
    obtain ⟨hok, hmoved⟩ := ho.ok.next hd
    exact ho.after hok hmoved
  | failure =>
    obtain ⟨dev, hd, rfl⟩ := Option.map_eq_some_iff.mp hs
    obtain ⟨hok, hw⟩ := ho.ok.failure hd
    exact ⟨hok, by rw [hw]; exact ho.order, by rw [hw]; exact ho.count⟩
  | call milliseconds =>
    obtain ⟨⟨r, dev⟩, hd, rfl⟩ := Option.map_eq_some_iff.mp hs
    obtain ⟨hok, hmoved⟩ := ho.ok.call hd
    exact ho.after hok hmoved

variable {read_buf : List Byte}

theorem ordered_of_reach (hr : Lts.Reach (step length) Fits (opened read_buf) h) :
    Ordered length read_buf.length h :=
  hr.inv (ordered_opened read_buf) fun _ _ _ ho hfits hs => ho.step hfits hs

/-- **Reads on Windows.** Whatever calls have given up, what was read and then
waits came in this order, each report at most once, no more than 65 wait, and
a report is lost for each that finds no read in flight and a full buffer. -/
theorem reads_keep_order (hr : Lts.Reach (step length) Fits (opened read_buf) h) :
    reads h.results ++ h.dev.waits.map (strip length) <+ h.arrived.map (strip length) ∧
      h.dev.waits.length ≤ 65 ∧ (reads h.results).length + h.dev.waits.length + h.lost = h.arrived.length := by
  have ho := ordered_of_reach hr
  refine ⟨ho.order, ?_, ho.count⟩
  have hended : h.dev.ended.length ≤ 1 := by
    unfold WinDevice.ended
    cases h.dev.ol with
    | done n => exact le_rfl
    | unused | inFlight | failed => exact Nat.zero_le 1
  have hfew := ho.ok.few
  rw [WinDevice.waits, List.length_append]
  omega

/-- A report is in the driver's buffer when the first call comes, another
ends the read that a call has left. -/
def twoReports : List WinEvent :=
  let quiet : WinEnv := ⟨false, false, true⟩
  [.report [0, 1], .call 0, .next quiet, .next quiet, .next quiet, .call 0, .next quiet, .next quiet, .report [0, 2]]

theorem reads_keep_order_two : ∃ h : WinHistory, h.results = [.bytes [1], .nothing] ∧ h.dev.waits = [[0, 2]] ∧
    reads h.results ++ h.dev.waits.map (strip 65) <+ h.arrived.map (strip 65) ∧ h.dev.waits.length ≤ 65 ∧
      (reads h.results).length + h.dev.waits.length + h.lost = h.arrived.length := by
  obtain ⟨h, hr, hp⟩ := Lts.exists_reach_of_run (step 65) Fits (opened [0, 0]) twoReports
    (fun h => h.results == [.bytes [1], .nothing] && h.dev.waits == [[0, 2]]) (by decide)
  rw [Bool.and_eq_true, beq_iff_eq, beq_iff_eq] at hp
  exact ⟨h, hp.1, hp.2, reads_keep_order hr⟩

/-- **Who waits.** A call goes on until it returns, in at most three steps,
but where it has no time-out and its read is in flight; and a call that finds
a read in flight starts no other, and leaves its buffer to the driver. With no
bytes to read into, a call returns at once. -/
theorem never_blocks (hr : Lts.Reach (step length) Fits (opened read_buf) h) :
    (∀ milliseconds env, h.dev.pc.milliseconds = some milliseconds →
        0 ≤ milliseconds ∨ h.dev.ol ≠ .inFlight →
        ∃ h', h.step length (.next env) = some h' ∧ h'.dev.pc.left < h.dev.pc.left) ∧
      (h.dev.ol = .inFlight → ∀ milliseconds h', h.step length (.call milliseconds) = some h' →
        h'.dev = { h.dev with pc := if length = 0 then .idle else .wait milliseconds }) := by
  have hok := (ordered_of_reach hr).ok
  constructor
  · intro milliseconds env hms hlong
    obtain ⟨x, hx, hlt⟩ := hok.phased.exists_next hms hlong length env
    exact ⟨_, congrArg (Option.map _) hx, hlt⟩
  · intro hf milliseconds h' hs
    obtain ⟨x, hd, rfl⟩ := Option.map_eq_some_iff.mp hs
    obtain ⟨-, hp, -⟩ := hok.phased.of_inFlight hf
    rw [WinDevice.call, Option.ite_none_right_eq_some] at hd
    obtain ⟨hpc, hd⟩ := hd
    split at hd
    · rename_i hlen
      cases hd
      rw [if_pos hlen, ← hpc]
      rfl
    · rename_i hlen
      rw [hp] at hd
      cases hd
      rw [if_neg hlen, ← hp]
      rfl

theorem never_blocks_left : ∃ h : WinHistory, h.dev.ol = .inFlight ∧ h.dev.pc = .wait 0 ∧
    (∀ milliseconds env, h.dev.pc.milliseconds = some milliseconds →
        0 ≤ milliseconds ∨ h.dev.ol ≠ .inFlight →
        ∃ h', h.step 65 (.next env) = some h' ∧ h'.dev.pc.left < h.dev.pc.left) ∧
      (h.dev.ol = .inFlight → ∀ milliseconds h', h.step 65 (.call milliseconds) = some h' →
        h'.dev = { h.dev with pc := .wait milliseconds }) := by
  obtain ⟨h, hr, hp⟩ := Lts.exists_reach_of_run (step 65) Fits (opened [0, 0])
    [.call 0, .next ⟨false, false, true⟩] (fun h => h.dev.ol == .inFlight && h.dev.pc == .wait 0) (by decide)
  rw [Bool.and_eq_true, beq_iff_eq, beq_iff_eq] at hp
  exact ⟨h, hp.1, hp.2, never_blocks hr⟩

end

end WinHistory

/-! ### The system on Windows -/

/-- Where a thread is about to take the mutex of `TbiDevice`. -/
def Pc.locks : Pc → Bool
  | isOpen _ _ | write _ _ | openTest _ _ | openDevice _ | closeTest | closeDevice => true
  | _ => false

/-- A step of a client thread. -/
def Act.isClient : Act → Bool
  | call _ _ | thread _ _ => true
  | _ => false

/-- The service over a handle on Windows: the reports wait in `dev`, and the
list in the handle of `sys` stays empty. -/
structure WinSys where
  sys : Sys
  dev : WinDevice

/-- A step outside of `hid_read`; a report of the device, which Windows gives
with a report number of 0; the worker's `hid_read`, which begins and goes on;
the read in flight fails. -/
inductive WinAct
  | act (a : Act)
  | emit (r : Report)
  | hidRead
  | next (env : WinEnv)
  | failure

def WinAct.client : WinAct → Option Act
  | act a => if a.isClient then some a else none
  | _ => none

namespace WinSys

/-- The worker is at its `hid_read`. -/
def reads (s : Sys) : Bool := s.tdev.isOpen && s.worker == some .read

/-- During `hid_read` no thread takes the mutex. -/
def allows (w : WinSys) : Act → Bool
  | .call _ _ => true
  | .thread c _ => w.dev.pc == .idle || !(w.sys.threads c).locks
  | .worker _ => !reads w.sys
  | .emit _ => false

/-- The worker, with what `hid_read` has returned. -/
def returned (s : Sys) : ReadResult → Sys
  | .bytes data =>
    if h : 0 < data.length ∧ data.length ≤ BUF_LEN then
      ({ s with tdev := ⟨s.tdev.handle.map fun d => { d with input := [⟨data, h.1, h.2⟩] }⟩ } : Sys).doRead true
    else { s with worker := some .thAbort }
  | _ => { s with worker := some .thAbort }

/-- The worker's `hid_read` has gone on, or has returned. -/
def after (w : WinSys) (x : Option ReadResult × WinDevice) : WinSys :=
  ⟨(x.1.map (returned w.sys)).getD w.sys, x.2⟩

/-- The steps; `read_buf` is the memory that a handle gets when it is
opened. -/
def step (read_buf : List Byte) (w : WinSys) : WinAct → Option WinSys
  | .act a =>
    if w.allows a then
      (w.sys.step a).map fun sys => ⟨sys, if w.sys.tdev.isOpen then w.dev else .opened read_buf⟩
    else none
  | .emit r =>
    if w.sys.tdev.isOpen ∧ r.dat.length < read_buf.length then
      some ⟨{ w.sys with emitted := w.sys.emitted ++ [r] }, w.dev.arrive (0 :: r.dat)⟩
    else none
  | .hidRead => if reads w.sys then (w.dev.call BUF_LEN 0).map w.after else none
  | .next env => (w.dev.next BUF_LEN env).map w.after
  | .failure => w.dev.failure.map fun dev => { w with dev }

/-- The system with a list of reports, and another history of the device. -/
def withInput (s : Sys) (rs emitted : List Report) : Sys :=
  { s with tdev := ⟨s.tdev.handle.map fun d => { d with input := rs }⟩, emitted := emitted }

theorem withInput_of_some {s : Sys} {n : ℕ} {input : List Report} (h : s.tdev.handle = some ⟨n, input⟩)
    (rs emitted : List Report) : withInput s rs emitted = s.swap n rs emitted := by
  rw [withInput, h]
  rfl

theorem withInput_of_none {s : Sys} (h : s.tdev.handle = none) (rs emitted : List Report) :
    withInput s rs emitted = s.forget emitted := by
  rcases s with ⟨⟨handle⟩, _⟩
  obtain rfl : handle = none := h
  rfl

theorem withInput_self {s : Sys} {rs : List Report} (h : ∀ d, s.tdev.handle = some d → d.input = rs)
    (emitted : List Report) : withInput s rs emitted = s.forget emitted := by
  cases hh : s.tdev.handle with
  | none => exact withInput_of_none hh rs emitted
  | some d =>
    obtain ⟨n, input⟩ := d
    obtain rfl : input = rs := h _ hh
    rw [withInput_of_some hh]
    exact congrArg (Sys.forget emitted) (Sys.swap_self hh)

/-- The reports `rs` wait for the system. -/
structure Holds (read_buf : List Byte) (rs : List Report) (w : WinSys) : Prop where
  idle : w.sys.tdev.handle = none → w.dev.pc = .idle
  input : ∀ d, w.sys.tdev.handle = some d → d.input = []
  ok : w.sys.tdev.isOpen = true → w.dev.Ok read_buf.length
  waits : w.sys.tdev.isOpen = true → w.dev.waits = rs.map fun r => 0 :: r.dat
  reading : w.dev.pc ≠ .idle → w.sys.worker = some .read

/-- The clients' steps of a run. -/
def clients (as : List Act) : List Act := as.filter Act.isClient

theorem clients_of_acts {as as' : List Act} (h : Sys.acts as = Sys.acts as') :
    clients as = clients as' := by
  have hall (bs : List Act) : clients bs = (Sys.acts bs).filter Act.isClient := by
    rw [clients, Sys.acts, List.filter_filter]
    refine List.filter_congr fun a _ => ?_
    cases a <;> rfl
  rw [hall, hall, h]

/-- No step of a client moves the worker from its read. -/
theorem worker_step {s s' : Sys} {a : Act} (hs : Sys.Steps s a s') (ha : ∀ got, a ≠ .worker got)
    (hw : s.worker = some .read) : s'.worker = some .read := by
  cases hs with
  | start _ _ hnone => rw [hw] at hnone; cases hnone
  | join _ hret => rw [hw] at hret; cases hret
  | workerIsOpen _ | readNothing _ _ | read _ _ _ | dispatch _ _ | enqueue _ _ _ | workerThAbort _ =>
    exact absurd rfl (ha _)
  | _ => exact hw

/-- A handle is closed with the mutex. -/
theorem close_step {s s' : Sys} {a : Act} (hs : Sys.Steps s a s') {d : HidDevice} (h : s.tdev.handle = some d)
    (h' : s'.tdev.handle = none) : ∃ c env, a = .thread c env ∧ s.threads c = .closeDevice := by
  cases hs with
  | @closeDevice c env hpc => exact ⟨c, env, rfl, hpc⟩
  | openDone _ _ _ | read _ _ _ | emit _ => cases h'
  | call _ | opened _ _ | notOpen _ _ | write _ | dequeue _ _ | openRefused _ _ | openAllowed _ _ | openFailed _ _
  | active _ _ | start _ _ _ | closeRefused _ _ | closeAllowed _ _ | notActive _ _ | stop _ _ | join _ _
  | workerIsOpen _ | readNothing _ _ | dispatch _ _ | enqueue _ _ _ | workerThAbort _ =>
    exact absurd (h.symm.trans h') (by simp)

/-- A handle that is opened has no reports. -/
theorem handle_step {s s' : Sys} {a : Act} (hs : Sys.Steps s a s') (he : ∀ r, a ≠ .emit r)
    (h : s.tdev.handle = none) : ∀ d, s'.tdev.handle = some d → d.input = [] := by
  intro d hd
  have hin := Sys.input_nil_step hs he (by rw [TbiDevice.input, h]; rfl)
  rw [TbiDevice.input, hd] at hin
  exact hin

section

variable {read_buf : List Byte} {rs : List Report} {w : WinSys}

theorem Holds.act (h : Holds read_buf rs w) {a : Act} (ha : w.allows a = true) {s' : Sys}
    (hs : w.sys.step a = some s') :
    ∃ rs', Holds read_buf rs' ⟨s', if w.sys.tdev.isOpen then w.dev else .opened read_buf⟩ ∧
      ∀ emitted, (withInput w.sys rs emitted).step a = some (withInput s' rs' emitted) := by
  have hst := Sys.steps_of_step hs
  have he : ∀ r, a ≠ .emit r := by
    rintro r rfl
    cases ha
  cases hh : w.sys.tdev.handle with
  | none =>
    have hclosed : w.sys.tdev.isOpen = false := by rw [TbiDevice.isOpen, hh]; rfl
    refine ⟨[], ⟨fun _ => ?_, handle_step hst he hh, fun _ => ?_, fun _ => ?_, fun hpc => ?_⟩,
      fun emitted => ?_⟩
    · rw [hclosed]
      rfl
    · rw [hclosed]
      exact WinDevice.ok_opened read_buf
    · rw [hclosed]
      rfl
    · rw [hclosed] at hpc
      exact absurd rfl hpc
    · rw [withInput_of_none hh, withInput_self (handle_step hst he hh), Sys.step_forget he, hs]
      rfl
  | some d =>
    obtain ⟨n, input⟩ := d
    obtain rfl : input = [] := h.input _ hh
    have hopen : w.sys.tdev.isOpen = true := by rw [TbiDevice.isOpen, hh]; rfl
    have hnot : ∀ got, a = .worker got → w.sys.worker ≠ some .read := by
      rintro got rfl hw
      have hreads : reads w.sys = true := by rw [reads, hopen, hw]; rfl
      rw [allows, hreads] at ha
      cases ha
    rw [hopen]
    have hne : (∃ got, a = .worker got) → w.sys.worker = some .read → ([] : List Report) ≠ [] := by
      rintro ⟨got, hg⟩ hw
      exact absurd hw (hnot got hg)
    rcases Sys.step_swap hst hh hne he with
      ⟨hnone, hswap⟩ | ⟨r, rs', hnil, -, -⟩ | ⟨hsame, hswap⟩
    · obtain ⟨c, env, rfl, hpc⟩ := close_step hst hh hnone
      have hidle : w.dev.pc = .idle := by
        rw [allows, hpc, Bool.or_eq_true, beq_iff_eq] at ha
        exact ha.resolve_right (by decide)
      have hclosed : s'.tdev.isOpen = false := by rw [TbiDevice.isOpen, hnone]; rfl
      refine ⟨[], ⟨fun _ => hidle, fun d hd => ?_, fun ho => ?_, fun ho => ?_, fun hne => absurd hidle hne⟩,
        fun emitted => ?_⟩
      · rw [hnone] at hd
        cases hd
      · rw [hclosed] at ho
        cases ho
      · rw [hclosed] at ho
        cases ho
      · rw [withInput_of_some hh, withInput_of_none hnone]
        exact hswap rs emitted
    · cases hnil
    · have hh' := hsame.trans hh
      refine ⟨rs, ⟨fun hn => ?_, fun d hd => ?_, fun _ => h.ok hopen, fun _ => h.waits hopen, fun hne => ?_⟩,
        fun emitted => ?_⟩
      · rw [hh'] at hn
        cases hn
      · rw [hh'] at hd
        cases hd
        rfl
      · have hw := h.reading hne
        exact worker_step hst (fun got hg => hnot got hg hw) hw
      · rw [withInput_of_some hh, withInput_of_some hh']
        exact hswap rs emitted

/-- A call that returns is the worker's read in the system. -/
theorem Holds.next (h : Holds read_buf rs w) {env : WinEnv} {r : Option ReadResult} {dev : WinDevice}
    (hs : w.dev.next BUF_LEN env = some (r, dev)) :
    (r = none ∧ Holds read_buf rs { w with dev }) ∨
      ∃ res got rs', r = some res ∧ Holds read_buf rs' ⟨returned w.sys res, dev⟩ ∧
        (returned w.sys res).emitted = w.sys.emitted ∧
        ∀ emitted, (withInput w.sys rs emitted).step (.worker got) =
          some (withInput (returned w.sys res) rs' emitted) := by
  have hne : w.dev.pc ≠ .idle := fun hidle => by
    rw [WinDevice.next, hidle] at hs
    cases hs
  have hw := h.reading hne
  cases hh : w.sys.tdev.handle with
  | none => exact absurd (h.idle hh) hne
  | some d =>
    obtain ⟨n, input⟩ := d
    obtain rfl : input = [] := h.input _ hh
    have hopen : w.sys.tdev.isOpen = true := by rw [TbiDevice.isOpen, hh]; rfl
    obtain ⟨hok, hmoved⟩ := (h.ok hopen).next hs
    have hempty {res : ReadResult} (hr : r = some res) (hnot : ∀ data, res ≠ .bytes data)
        (hret : returned w.sys res = { w.sys with worker := some .thAbort }) :
        Holds read_buf rs ⟨returned w.sys res, dev⟩ ∧ (returned w.sys res).emitted = w.sys.emitted ∧
          ∀ emitted, (withInput w.sys rs emitted).step (.worker false) =
            some (withInput (returned w.sys res) rs emitted) := by
      have hwaits := hmoved.waits fun data hd => hnot data (Option.some.inj (hr.symm.trans hd))
      have hidle : dev.pc = .idle := WinDevice.next_returned (hr ▸ hs)
      rw [hret]
      refine ⟨⟨fun _ => hidle, h.input, fun _ => hok, fun ho => hwaits.trans (h.waits ho),
        fun hpc => absurd hidle hpc⟩, rfl, fun emitted => ?_⟩
      simp [Sys.step, Sys.workerStep, Sys.doRead, TbiDevice.read, withInput, hw, hh]
    cases r with
    | none =>
      have hwaits := hmoved.waits fun data hd => by cases hd
      refine .inl ⟨rfl, fun hn => ?_, h.input, fun _ => hok, fun ho => hwaits.trans (h.waits ho), fun _ => hw⟩
      rw [hh] at hn
      cases hn
    | some res =>
      cases res with
      | error | nothing => exact .inr ⟨_, false, rs, rfl, hempty rfl (fun data hd => by cases hd) rfl⟩
      | bytes data =>
        obtain ⟨rpt, rfl, hwaits⟩ := hmoved.bytes data rfl
        have hidle : dev.pc = .idle := WinDevice.next_returned hs
        rw [h.waits hopen] at hwaits
        obtain ⟨r₀, rs', rfl, hrpt, hrest⟩ := List.map_eq_cons_iff.mp hwaits
        subst hrpt
        have hret : returned w.sys (.bytes (WinDevice.strip BUF_LEN (0 :: r₀.dat))) =
            (w.sys.swap n [r₀] w.sys.emitted).doRead true := by
          rw [WinDevice.strip_cons_zero BUF_LEN r₀.dat r₀.le, returned, dif_pos ⟨r₀.pos, r₀.le⟩]
          exact congrArg (fun s => Sys.doRead s true) (withInput_of_some hh [r₀] w.sys.emitted)
        have hread (emitted : List Report) : (w.sys.swap n (r₀ :: rs') emitted).doRead true =
            ((w.sys.swap n [r₀] w.sys.emitted).doRead true).swap n rs' emitted := rfl
        have hh' : ((w.sys.swap n [r₀] w.sys.emitted).doRead true).tdev.handle = some ⟨n, []⟩ := rfl
        refine .inr ⟨_, true, rs', rfl, ?_, ?_, fun emitted => ?_⟩
        · rw [hret]
          refine ⟨fun _ => hidle, fun d hd => ?_, fun _ => hok, fun _ => hrest.symm, fun hpc => absurd hidle hpc⟩
          cases hd
          rfl
        · rw [hret]
          rfl
        · rw [hret, withInput_of_some hh, withInput_of_some hh', ← hread]
          have hworker : (w.sys.swap n (r₀ :: rs') emitted).worker = some .read := hw
          rw [Sys.step, Sys.workerStep, hworker]

/-- A report that is lost need not have come. -/
theorem Holds.emit (h : Holds read_buf rs w) (hopen : w.sys.tdev.isOpen = true) {r : Report}
    (hfits : r.dat.length < read_buf.length) {s₀ : Sys} (h₀ : s₀.tdev.handle = none) {as : List Act}
    {emitted : List Report} (hrun : Lts.run Sys.step s₀ as = some (withInput w.sys rs emitted)) :
    ∃ as' emitted' rs', clients as' = clients as ∧ emitted' <+ emitted ++ [r] ∧
      Holds read_buf rs' ⟨{ w.sys with emitted := w.sys.emitted ++ [r] }, w.dev.arrive (0 :: r.dat)⟩ ∧
      Lts.run Sys.step s₀ as' = some (withInput w.sys rs' emitted') := by
  obtain ⟨⟨n, input⟩, hh⟩ := Option.isSome_iff_exists.mp hopen
  obtain rfl : input = [] := h.input _ hh
  obtain ⟨hok, hwaits⟩ := (h.ok hopen).arrive (show (0 :: r.dat).length ≤ read_buf.length from hfits)
  have hpc : (w.dev.arrive (0 :: r.dat)).pc = w.dev.pc := by
    unfold WinDevice.arrive
    split <;> rfl
  have hholds {rs' : List Report} (hrs : w.dev.ended ++ DropQueue.push 64 w.dev.buffers (0 :: r.dat) =
      rs'.map fun r => 0 :: r.dat) :
      Holds read_buf rs' ⟨{ w.sys with emitted := w.sys.emitted ++ [r] }, w.dev.arrive (0 :: r.dat)⟩ :=
    ⟨fun hn => hpc.trans (h.idle hn), h.input, fun _ => hok, fun _ => hwaits.trans hrs,
      fun hne => h.reading fun hi => hne (hpc.trans hi)⟩
  have hlossless : Lts.run Sys.step s₀ (as ++ [.emit r]) = some (w.sys.swap n (rs ++ [r]) (emitted ++ [r])) := by
    rw [Lts.run_concat, hrun, withInput_of_some hh]
    rfl
  have hclients : clients (as ++ [.emit r]) = clients as := by
    rw [clients, List.filter_append]
    exact List.append_nil _
  -- the reports of the driver's buffer
  obtain ⟨xs, bs, rfl, hxs, hbs⟩ := List.map_eq_append_iff.mp (h.waits hopen).symm
  have hall : w.dev.buffers ++ [0 :: r.dat] = (bs ++ [r]).map fun r => 0 :: r.dat := by
    rw [List.map_append, hbs]
    rfl
  by_cases hroom : w.dev.buffers.length < 64
  · refine ⟨_, _, xs ++ bs ++ [r], hclients, .refl _, hholds ?_, ?_⟩
    · rw [DropQueue.push, if_pos hroom, hall, ← hxs, ← List.map_append, List.append_assoc]
    · rw [withInput_of_some hh]
      exact hlossless
  · obtain ⟨r₀, ys, hys⟩ := List.exists_cons_of_ne_nil (show bs ++ [r] ≠ [] by simp)
    have hin : s₀.tdev.input = [] := by rw [TbiDevice.input, h₀]; rfl
    obtain ⟨as', emitted', -, hacts, hem, hrun'⟩ := @Sys.run_without s₀ hin _ _ n xs ys r₀ hlossless
      (by rw [← hys, ← List.append_assoc]; rfl)
    refine ⟨as', emitted', xs ++ ys, (clients_of_acts hacts).trans hclients, hem, hholds ?_, ?_⟩
    · rw [DropQueue.push, if_neg hroom, hall, hys, ← hxs, ← List.map_tail, List.tail_cons, ← List.map_append]
    · rw [withInput_of_some hh]
      exact hrun'

/-- A run of the system ends as `w`, but for the reports that were lost. -/
def Follows (s₀ : Sys) (read_buf : List Byte) (as : List WinAct) (w : WinSys) : Prop :=
  ∃ as' emitted rs, clients as' = as.filterMap WinAct.client ∧ emitted <+ w.sys.emitted ∧ Holds read_buf rs w ∧
    Lts.run Sys.step s₀ as' = some (withInput w.sys rs emitted)

variable {s₀ : Sys} {as : List WinAct}

theorem follows_opened (h₀ : s₀.tdev.handle = none) :
    Follows s₀ read_buf [] ⟨s₀, .opened read_buf⟩ := by
  have hclosed : ¬ s₀.tdev.isOpen = true := by rw [TbiDevice.isOpen, h₀]; decide
  refine ⟨[], s₀.emitted, [], rfl, .refl _, ⟨fun _ => rfl, fun d hd => ?_, fun ho => absurd ho hclosed,
    fun ho => absurd ho hclosed, fun hne => absurd rfl hne⟩, ?_⟩
  · rw [h₀] at hd
    cases hd
  · rw [withInput_of_none h₀]
    rfl

theorem client_none {a : WinAct} (ha : a.client = none) :
    (as ++ [a]).filterMap WinAct.client = as.filterMap WinAct.client := by
  rw [List.filterMap_append, List.filterMap_cons_none ha, List.filterMap_nil, List.append_nil]

/-- The driver and the client go on with a read that has not ended. -/
theorem Follows.inside (h : Follows s₀ read_buf as w) {a : WinAct} (ha : a.client = none) {dev : WinDevice}
    (hok : w.dev.Ok read_buf.length → dev.Ok read_buf.length ∧ dev.waits = w.dev.waits)
    (hpc : dev.pc ≠ .idle → w.sys.worker = some .read ∧ w.sys.tdev.isOpen = true) :
    Follows s₀ read_buf (as ++ [a]) { w with dev } := by
  obtain ⟨as', emitted, rs, hclients, hem, hholds, hrun⟩ := h
  refine ⟨as', emitted, rs, hclients.trans (client_none ha).symm, hem, ?_, hrun⟩
  refine ⟨fun hn => ?_, hholds.input, fun ho => (hok (hholds.ok ho)).1,
    fun ho => (hok (hholds.ok ho)).2.trans (hholds.waits ho), fun hne => (hpc hne).1⟩
  by_contra hne
  have hopen := (hpc hne).2
  rw [TbiDevice.isOpen, hn] at hopen
  cases hopen

theorem Holds.inside (h : Holds read_buf rs w) (hne : w.dev.pc ≠ .idle) :
    w.sys.worker = some .read ∧ w.sys.tdev.isOpen = true := by
  refine ⟨h.reading hne, ?_⟩
  by_contra hclosed
  exact hne (h.idle (Option.not_isSome_iff_eq_none.mp hclosed))

theorem Follows.act (h : Follows s₀ read_buf as w) {a : Act} {w' : WinSys} (hs : w.step read_buf (.act a) = some w') :
    Follows s₀ read_buf (as ++ [.act a]) w' := by
  obtain ⟨as', emitted, rs, hclients, hem, hholds, hrun⟩ := h
  rw [WinSys.step, Option.ite_none_right_eq_some] at hs
  obtain ⟨hallows, hs⟩ := hs
  obtain ⟨s', hs', rfl⟩ := Option.map_eq_some_iff.mp hs
  obtain ⟨rs', hholds', hstep⟩ := hholds.act hallows hs'
  have he : ∀ r, a ≠ .emit r := by
    rintro r rfl
    cases hallows
  refine ⟨as' ++ [a], emitted, rs', ?_, ?_, hholds', ?_⟩
  · have hone : clients [a] = [WinAct.act a].filterMap WinAct.client := by
      cases a <;> rfl
    rw [List.filterMap_append, ← hclients, ← hone]
    exact List.filter_append ..
  · rw [Sys.emitted_step (Sys.steps_of_step hs') he]
    exact hem
  · rw [Lts.run_concat, hrun]
    exact hstep emitted

theorem Follows.next (h : Follows s₀ read_buf as w) {env : WinEnv} {w' : WinSys}
    (hs : w.step read_buf (.next env) = some w') : Follows s₀ read_buf (as ++ [.next env]) w' := by
  obtain ⟨as', emitted, rs, hclients, hem, hholds, hrun⟩ := h
  obtain ⟨⟨r, dev⟩, hd, rfl⟩ := Option.map_eq_some_iff.mp hs
  rcases hholds.next hd with ⟨rfl, hholds'⟩ | ⟨res, got, rs', rfl, hholds', hsame, hstep⟩
  · exact ⟨as', emitted, rs, hclients.trans (client_none rfl).symm, hem, hholds', hrun⟩
  · refine ⟨as' ++ [.worker got], emitted, rs', ?_, ?_, hholds', ?_⟩
    · rw [client_none rfl, ← hclients, clients, List.filter_append]
      exact List.append_nil _
    · exact hsame.symm ▸ hem
    · rw [Lts.run_concat, hrun]
      exact hstep emitted

theorem Follows.step (h : Follows s₀ read_buf as w) (h₀ : s₀.tdev.handle = none) {a : WinAct} {w' : WinSys}
    (hs : w.step read_buf a = some w') : Follows s₀ read_buf (as ++ [a]) w' := by
  cases a with
  | act a => exact h.act hs
  | next env => exact h.next hs
  | emit r =>
    obtain ⟨as', emitted, rs, hclients, hem, hholds, hrun⟩ := h
    rw [WinSys.step, Option.ite_none_right_eq_some] at hs
    obtain ⟨⟨hopen, hfits⟩, hs⟩ := hs
    cases hs
    obtain ⟨as'', emitted', rs', hclients', hem', hholds', hrun'⟩ := hholds.emit hopen hfits h₀ hrun
    exact ⟨as'', emitted', rs', (hclients'.trans hclients).trans (client_none rfl).symm,
      hem'.trans (hem.append_right _), hholds', hrun'⟩
  | hidRead =>
    rw [WinSys.step, Option.ite_none_right_eq_some] at hs
    obtain ⟨hreads, hs⟩ := hs
    obtain ⟨⟨r, dev⟩, hd, rfl⟩ := Option.map_eq_some_iff.mp hs
    obtain rfl := WinDevice.call_returned hd (by decide)
    rw [reads, Bool.and_eq_true, beq_iff_eq] at hreads
    refine h.inside rfl (fun hok => ?_) fun _ => ⟨hreads.2, hreads.1⟩
    obtain ⟨hok', hmoved⟩ := hok.call hd
    exact ⟨hok', hmoved.waits fun _ hr => by cases hr⟩
  | failure =>
    obtain ⟨dev, hd, rfl⟩ := Option.map_eq_some_iff.mp hs
    have hpc : dev.pc = w.dev.pc := by
      rw [WinDevice.failure, Option.ite_none_right_eq_some] at hd
      cases hd.2
      rfl
    have hf := h
    obtain ⟨_, _, _, _, _, hholds, _⟩ := hf
    exact h.inside rfl (fun hok => hok.failure hd) fun hne => hholds.inside (hpc ▸ hne)

end

/-- **The system on Windows.** Each of its runs is a run of the system with an
unbounded list of reports, of the same steps of the clients and of a device
that sends some of the reports: up to the history of the device it ends in the
same state, with the reports that wait in the driver and in the read that is
pending. -/
theorem win_refines {s₀ : Sys} (h₀ : s₀.tdev.handle = none) (read_buf : List Byte) (as : List WinAct) {w : WinSys}
    (hrun : Lts.run (step read_buf) ⟨s₀, .opened read_buf⟩ as = some w) :
    ∃ as' emitted rs, clients as' = as.filterMap WinAct.client ∧ emitted <+ w.sys.emitted ∧
      (w.sys.tdev.isOpen = true → w.dev.waits = rs.map fun r => 0 :: r.dat) ∧
      Lts.run Sys.step s₀ as' = some (withInput w.sys rs emitted) := by
  have h : Follows s₀ read_buf as w := by
    induction as using List.reverseRecOn generalizing w with
    | nil =>
      cases hrun
      exact follows_opened h₀
    | append_singleton as a ih =>
      rw [Lts.run_concat] at hrun
      obtain ⟨m, hm, hstep⟩ := Option.bind_eq_some_iff.mp hrun
      exact (ih hm).step h₀ hstep
  obtain ⟨as', emitted, rs, hclients, hem, hholds, hrun'⟩ := h
  exact ⟨as', emitted, rs, hclients, hem, hholds.waits, hrun'⟩

/-- `openPath`, and a report that ends the read which a `hid_read` has left. -/
def leftRead : List WinAct :=
  let quiet : WinEnv := ⟨false, false, true⟩
  [.act (.call 0 (.openPath (some "dev") .blank)), .act (.thread 0 .good), .act (.thread 0 .good),
    .act (.thread 0 .good), .act (.worker true), .hidRead, .next quiet, .next quiet, .emit Sys.oneByte,
    .act (.worker true), .act (.worker true), .hidRead, .next quiet, .next quiet]

theorem win_refines_left : ∃ w as' emitted rs,
    Lts.run (step (List.replicate 65 0)) ⟨Sys.new .blank false, .opened (List.replicate 65 0)⟩ leftRead = some w ∧
      clients as' = leftRead.filterMap WinAct.client ∧ emitted <+ w.sys.emitted ∧
      (w.sys.tdev.isOpen = true → w.dev.waits = rs.map fun r => 0 :: r.dat) ∧
      Lts.run Sys.step (Sys.new .blank false) as' = some (withInput w.sys rs emitted) := by
  obtain ⟨w, hw⟩ := Option.isSome_iff_exists.mp (show (Lts.run (step (List.replicate 65 0))
    ⟨Sys.new .blank false, .opened (List.replicate 65 0)⟩ leftRead).isSome = true by rfl)
  obtain ⟨as', emitted, rs, h⟩ := win_refines rfl (List.replicate 65 0) leftRead hw
  exact ⟨w, as', emitted, rs, hw, h⟩

end WinSys

end ToolbitSdk

import SocketToRdma.Host.Routing
import SocketToRdma.Remote.Call
import SocketToRdma.RoundTrip

/-!
# A remote `select`

The arguments of a forwarded `select` are encoded into the request, decoded by the server, and the
sets its `select` left come back in the same format when it found a descriptor. The flag of the
format lies over the first bytes of the read set, and the server passes all four pointers: the
call is the one of the application exactly when it has all its arguments and a read set that the
flag does not change.
-/

namespace SocketToRdma

/-- The read set after the flag of four arguments was stored over its first bytes. -/
def overlaid (rd : Block 128) : Block 128 :=
  fun i => if i.val = 0 then 4 else if i.val < 3 then 0 else rd i

/-- The flag does not change the set. -/
def Overlaps (rd : Block 128) : Prop :=
  rd 0 = 4 ∧ rd 1 = 0 ∧ rd 2 = 0

theorem overlaid_eq_iff (rd : Block 128) :
  overlaid rd = rd ↔ Overlaps rd
  := by
  constructor
  · intro h
    exact ⟨(congrFun h 0).symm, (congrFun h 1).symm, (congrFun h 2).symm⟩
  · rintro ⟨h0, h1, h2⟩
    funext i
    simp only [overlaid]
    split
    case isTrue hi =>
      have hi : i = 0 := Fin.ext hi
      rw [hi, h0]
    case isFalse hi =>
      split
      case isTrue hlt =>
        have hcases : i = 1 ∨ i = 2 := by
          simp only [Fin.ext_iff, Fin.val_one, Fin.val_two]
          omega
        obtain rfl | rfl := hcases
        · rw [h1]
        · rw [h2]
      case isFalse => rfl

/-! ### The format -/

/-- A memory that holds the encoded arguments, all four present. -/
structure Encodes (m : ByteMem) (p : ℕ) (nfds : BitVec 32) (rd wr ex : Block 128)
    (tm : Block 16) : Prop where
  nfds : m.loadBits 32 p = nfds
  flag : m.loadBits 32 (p + 4) = 1111
  readfds : m.load (p + 5) 128 = overlaid rd
  writefds : m.load (p + 133) 128 = wr
  exceptfds : m.load (p + 261) 128 = ex
  timeout : m.load (p + 389) 16 = tm

/-- The bytes of the flag that lie over the read set. -/
theorem flag_bytes :
  ∀ i : Fin 3, Block.ofNat 4 1111 i.succ = if i.val = 0 then 4 else 0
  := by decide

theorem overlay_flag (rd : Block 128) :
  overlay 1111 rd = overlaid rd
  := by
  funext i
  simp only [overlay, overlaid]
  by_cases hlt : i.val < 3
  · rw [dif_pos hlt, if_pos hlt]
    apply flag_bytes ⟨i.val, hlt⟩
  · rw [dif_neg hlt, if_neg (by omega), if_neg hlt]

/-- The encoder of four arguments. -/
theorem encodes_serializeSelectFdSet (m : ByteMem) (p : ℕ) (nfds : BitVec 32)
    (rd wr ex : Block 128) (tm : Block 16) :
  Encodes (serializeSelectFdSet m p ⟨nfds, rd, wr, ex, tm⟩) p nfds rd wr ex tm
  := by
  obtain ⟨hnfds, hflag, hrd, hwr, hex, htm⟩ :=
    loads_serializeSelectFdSet m p ⟨nfds, rd, wr, ex, tm⟩
  exact ⟨hnfds, hflag, hrd.trans (overlay_flag rd), hwr, hex, htm⟩

/-- What was encoded arrives where the bytes are copied. -/
theorem Encodes.congr {m m' : ByteMem} {p : ℕ} {nfds : BitVec 32} {rd wr ex : Block 128}
    {tm : Block 16} (h : Encodes m p nfds rd wr ex tm) (hm : m'.AgreeOn m p selectSize) :
  Encodes m' p nfds rd wr ex tm
  := by
  unfold selectSize at hm
  constructor
  · rw [← h.nfds]
    apply (hm.mono (by omega) (by omega)).loadBits
  · rw [← h.flag]
    apply (hm.mono (by omega) (by omega)).loadBits
  · rw [← h.readfds]
    apply (hm.mono (by omega) (by omega)).load
  · rw [← h.writefds]
    apply (hm.mono (by omega) (by omega)).load
  · rw [← h.exceptfds]
    apply (hm.mono (by omega) (by omega)).load
  · rw [← h.timeout]
    apply (hm.mono (by omega) (by omega)).load

/-- The decoder fills the destinations that are there. -/
theorem Encodes.decode {m : ByteMem} {p : ℕ} {nfds : BitVec 32} {rd wr ex : Block 128}
    {tm : Block 16} (h : Encodes m p nfds rd wr ex tm) (a : SelectArgs) :
  deserializeSelectFdSet m p a =
    { nfds := nfds
      readfds := a.readfds.map fun _ => overlaid rd
      writefds := a.writefds.map fun _ => wr
      exceptfds := a.exceptfds.map fun _ => ex
      timeout := a.timeout.map fun _ => tm }
  := by
  have hflag : (1111 : BitVec 32).toInt = 1111 := by decide
  simp only [deserializeSelectFdSet, h.flag, hflag, loadIf, h.nfds, h.readfds, h.writefds,
    h.exceptfds, h.timeout]
  rfl

/-- The server passes four arguments, whatever the flag says. -/
theorem isSome_loadIf {n : ℕ} (present : Prop) [Decidable present] (m : ByteMem) (p : ℕ)
    (b : Option (Block n)) :
  (loadIf present m p b).isSome = b.isSome
  := by
  unfold loadIf
  split
  · apply Option.isSome_map
  · rfl

/-! ### The call of the server -/

/-- The connection with the arguments encoded into its request. -/
def RInfo.encodeSelect (h : RInfo) (a : SelectArgs) : RInfo :=
  { h with mem := serializeSelectFdSet h.mem reqData a }

/-- The sets of the application after `req_select`, when `set_req_sock` ended with `s`. -/
def selectReturned (s : SetReqResult) (a : SelectArgs) : SelectArgs :=
  if 0 < s.ret.toInt then
    deserializeSelectFdSet s.rInfo.mem rtnData { a with timeout := none }
  else a

/-- A forwarded `select` is the `select` of the application: the server executes it with these
arguments, and the sets it left are those of the application. -/
structure SelectFaithful (env : ServerEnv) (c : ClientRInfo) (h : RInfo) (f : Forward)
    (a : SelectArgs) : Prop where
  executed : executed env c (h.encodeSelect a) f = [.select a]
  returned : 0 ≤ env.outcome.int.toInt →
    ∃ s, callServerWith env c (h.encodeSelect a) f = some s ∧
      (selectReturned s a).readfds = a.readfds.map (fun _ => env.outcome.buf.load 0 128) ∧
      (selectReturned s a).writefds = a.writefds.map (fun _ => env.outcome.buf.load 128 128) ∧
      (selectReturned s a).exceptfds = a.exceptfds.map fun _ => env.outcome.buf.load 256 128

theorem serves_select (env : ServerEnv) {c : ClientRInfo} (h : c.request = some .select) :
  Serves env c (sockSelect env.toHandlerEnv c.mem)
  := by
  let x := reply env ((Exec.start c).handled (sockSelect env.toHandlerEnv c.mem))
  have hserve : serve env (.start c) (some .select) =
      x.assign (x.cInfo.mem.memset rtnData 0 rtnSize) := rfl
  exact serves_handler h (by decide) (fills_sockSelect _ _) (Or.inr ⟨_, hserve⟩)

/-- A forwarded `select` is a `select` request without a descriptor. -/
theorem forward_of_select {fdHt : FDHashTable} {hook : HookEnv} {r : HookResult} {f : Forward}
    {nfds : BitVec 32} (hrun : HookCall.run fdHt hook (.select nfds) = some r)
    (hf : r.forward = some f) :
  f = ⟨0, .select, 0, 0⟩
  := (Option.some.inj (HookCall.forward_of_route hrun hf)).symm

/-- The arguments of a `select` that stay as they are: all four are there, the flag changes no
set on the way, and the sets are those that `select` left when it found no descriptor. -/
structure SelectFits (o : Outcome) (a : SelectArgs) (rd wr ex : Block 128) (tm : Block 16) :
    Prop where
  args : a = ⟨a.nfds, rd, wr, ex, tm⟩
  request : Overlaps rd
  found : 0 < o.int.toInt → Overlaps (o.buf.load 0 128)
  unchanged : o.int.toInt = 0 →
    rd = o.buf.load 0 128 ∧ wr = o.buf.load 128 128 ∧ ex = o.buf.load 256 128

/-- The server has a place for each of the arguments. -/
theorem selectArgs_full (env : HandlerEnv) (m : ByteMem) :
  ∃ rd wr ex tm, selectArgs env m = ⟨(selectArgs env m).nfds, some rd, some wr, some ex, some tm⟩
  := by
  have hsome : (selectArgs env m).readfds.isSome ∧ (selectArgs env m).writefds.isSome ∧
      (selectArgs env m).exceptfds.isSome ∧ (selectArgs env m).timeout.isSome := by
    simp only [selectArgs, deserializeSelectFdSet]
    split
    · exact ⟨rfl, rfl, rfl, rfl⟩
    · simp only [isSome_loadIf]
      exact ⟨rfl, rfl, rfl, rfl⟩
  obtain ⟨hrd, hwr, hex, htm⟩ := hsome
  obtain ⟨rd, hrd⟩ := Option.isSome_iff_exists.mp hrd
  obtain ⟨wr, hwr⟩ := Option.isSome_iff_exists.mp hwr
  obtain ⟨ex, hex⟩ := Option.isSome_iff_exists.mp hex
  obtain ⟨tm, htm⟩ := Option.isSome_iff_exists.mp htm
  use rd, wr, ex, tm
  rw [← hrd, ← hwr, ← hex, ← htm]

/-- When `select` found a descriptor, the sets it left are decoded, the read set with the flag over
it. -/
theorem selectReturned_of_pos {env : HandlerEnv} {m : ByteMem} {s : SetReqResult}
    (h : Answered (sockSelect env m) s) (hpos : 0 < env.outcome.int.toInt) (a : SelectArgs) :
  (selectReturned s a).readfds = a.readfds.map (fun _ => overlaid (env.outcome.buf.load 0 128)) ∧
    (selectReturned s a).writefds = a.writefds.map (fun _ => env.outcome.buf.load 128 128) ∧
    (selectReturned s a).exceptfds = a.exceptfds.map fun _ => env.outcome.buf.load 256 128
  := by
  have hret : s.ret = env.outcome.int := h.ret _ (fills_sockSelect env m).value hpos.le
  have hencodes : Encodes (sockSelect env m).mem rtnData (selectArgs env m).nfds
      (env.outcome.buf.load 0 128) (env.outcome.buf.load 128 128)
      (env.outcome.buf.load 256 128) (env.outcome.buf.load 384 16) := by
    simp only [sockSelect]
    rw [if_pos hpos]
    apply encodes_serializeSelectFdSet
  have hreceived := hencodes.congr (h.mem.mono (by decide) (by decide))
  rw [selectReturned, hret, if_pos hpos, hreceived.decode]
  exact ⟨rfl, rfl, rfl⟩

/-- When `select` found no descriptor, the sets of the application stay as they were. -/
theorem selectReturned_of_eq_zero {env : HandlerEnv} {m : ByteMem} {s : SetReqResult}
    (h : Answered (sockSelect env m) s) (hzero : env.outcome.int.toInt = 0) (a : SelectArgs) :
  selectReturned s a = a
  := by
  have hret : s.ret = env.outcome.int := h.ret _ (fills_sockSelect env m).value hzero.ge
  rw [selectReturned, hret, if_neg (by omega)]

/-- The arguments the server decodes from a request with all four. -/
theorem selectArgs_receive (env : HandlerEnv) (c : ClientRInfo) (h : RInfo) (f : Forward)
    (nfds : BitVec 32) (rd wr ex : Block 128) (tm : Block 16) :
  selectArgs env (c.receive (f.request (h.encodeSelect ⟨nfds, rd, wr, ex, tm⟩))).mem =
    ⟨nfds, overlaid rd, wr, ex, tm⟩
  := by
  have hencodes := encodes_serializeSelectFdSet h.mem reqData nfds rd wr ex tm
  have hreceived := (receive_data c (h.encodeSelect ⟨nfds, rd, wr, ex, tm⟩) f).mono
    (q := reqData) (k := selectSize) (le_refl _) (by decide)
  rw [selectArgs, (hencodes.congr hreceived).decode]
  rfl

/-- A `select` that is carried out as the application called it has all its arguments, and a read
set that overlaps with the flag. -/
theorem full_of_executed {env : ServerEnv} {c : ClientRInfo} {h : RInfo} {a : SelectArgs}
    (hexecuted : executed env c (h.encodeSelect a) ⟨0, .select, 0, 0⟩ = [.select a]) :
  ∃ rd wr ex tm, a = ⟨a.nfds, some rd, some wr, some ex, some tm⟩ ∧ Overlaps rd
  := by
  have hserves := serves_select env
    (receive_request c (h.encodeSelect a) ⟨0, .select, 0, 0⟩)
  have hargs : selectArgs env.toHandlerEnv
      (c.receive (Forward.request ⟨0, .select, 0, 0⟩ (h.encodeSelect a))).mem = a := by
    rw [executed, hserves.calls] at hexecuted
    simpa [sockSelect] using hexecuted
  obtain ⟨rd, wr, ex, tm, hfull⟩ := selectArgs_full env.toHandlerEnv
    (c.receive (Forward.request ⟨0, .select, 0, 0⟩ (h.encodeSelect a))).mem
  rw [hargs] at hfull
  use rd, wr, ex, tm, hfull
  rw [hfull, selectArgs_receive] at hargs
  rw [← overlaid_eq_iff]
  simpa using hargs

/-- A forwarded `select` is the `select` of the application exactly when all its arguments are
there, its read set overlaps with the flag, as the one that `select` left when it found a
descriptor, and the sets are those that `select` left when it found none. -/
theorem select_faithful_iff {fdHt : FDHashTable} {hook : HookEnv} {r : HookResult} {f : Forward}
    {a : SelectArgs} (env : ServerEnv) (c : ClientRInfo) {h : RInfo}
    (hrun : HookCall.run fdHt hook (.select a.nfds) = some r) (hf : r.forward = some f)
    (hmr : h.rtnMr) :
  SelectFaithful env c h f a ↔ ∃ rd wr ex tm, SelectFits env.outcome a rd wr ex tm
  := by
  obtain rfl := forward_of_select hrun hf
  have hserves := serves_select env
    (receive_request c (h.encodeSelect a) ⟨0, .select, 0, 0⟩)
  obtain ⟨s, hs, -, hanswered⟩ := callServerWith_answered (h := h.encodeSelect a) hmr
    (by decide) (by decide) hserves
  constructor
  · rintro ⟨hexecuted, hreturned⟩
    obtain ⟨rd, wr, ex, tm, hfull, hoverlaps⟩ := full_of_executed hexecuted
    use rd, wr, ex, tm, hfull, hoverlaps
    · intro hpos
      obtain ⟨s', hs', hrd, -⟩ := hreturned hpos.le
      rw [hs] at hs'
      obtain rfl := Option.some.inj hs'
      rw [(selectReturned_of_pos hanswered hpos a).1, hfull] at hrd
      rw [← overlaid_eq_iff]
      apply Option.some.inj hrd
    · intro hzero
      obtain ⟨s', hs', hrd, hwr, hex⟩ := hreturned hzero.ge
      rw [hs] at hs'
      obtain rfl := Option.some.inj hs'
      rw [selectReturned_of_eq_zero hanswered hzero, hfull] at hrd hwr hex
      exact ⟨Option.some.inj hrd, Option.some.inj hwr, Option.some.inj hex⟩
  · rintro ⟨rd, wr, ex, tm, hfits⟩
    constructor
    · rw [executed, hserves.calls]
      simp only [sockSelect]
      rw [hfits.args, selectArgs_receive, (overlaid_eq_iff rd).mpr hfits.request]
    · intro hnonneg
      use s, hs
      obtain hpos | hzero := hnonneg.lt_or_eq
      · obtain ⟨hrd, hwr, hex⟩ := selectReturned_of_pos hanswered hpos a
        rw [hrd, (overlaid_eq_iff _).mpr (hfits.found hpos)]
        exact ⟨rfl, hwr, hex⟩
      · obtain ⟨hrd, hwr, hex⟩ := hfits.unchanged hzero.symm
        rw [selectReturned_of_eq_zero hanswered hzero.symm, hfits.args, ← hrd, ← hwr, ← hex]
        exact ⟨rfl, rfl, rfl⟩

theorem run_select_afterSocket :
  HookCall.run afterSocket replyFive (.select 6#32) =
    some (callServer afterSocket replyFive 0 .select 0 0)
  := by
  have hfd : 6#32 - 1 = 5#32 := by decide
  rw [HookCall.run, reqSelect, hfd, HookCall.route_of_ne fd_afterSocket rfl]

/-- The sets of a `select` that found nothing: the descriptor `2` is in the read set. -/
def quietSets : ByteMem :=
  fun j => if j = 0 then 4 else 0

/-- A `select` on these sets, without waiting. -/
def quietSelect : SelectArgs :=
  ⟨6#32, some (quietSets.load 0 128), some (quietSets.load 128 128), some (quietSets.load 256 128),
    some (Block.fill _ 0)⟩

theorem select_faithful_iff_quiet :
  SelectFaithful (.ofOutcome ⟨0, 0, quietSets, 0⟩) (.received .select 0) idleRInfo
    ⟨0, .select, 0, 0⟩ quietSelect
  := by
  apply (select_faithful_iff (a := quietSelect) (.ofOutcome ⟨0, 0, quietSets, 0⟩)
    (.received .select 0) run_select_afterSocket rfl rfl).mpr
  use quietSets.load 0 128, quietSets.load 128 128, quietSets.load 256 128, Block.fill _ 0
  constructor
  · rfl
  · exact ⟨rfl, rfl, rfl⟩
  · intro hpos
    cases hpos
  · intro _
    exact ⟨rfl, rfl, rfl⟩

/-- A `select` that waits without a timeout is carried out with one. -/
theorem blocking_select_not_faithful :
  (∃ r, HookCall.run afterSocket replyFive (.select 6#32) = some r ∧
      r.forward = some ⟨0, .select, 0, 0⟩) ∧
    ¬ SelectFaithful (.ofOutcome ⟨0, 0, quietSets, 0⟩) (.received .select 0) idleRInfo
      ⟨0, .select, 0, 0⟩ { quietSelect with timeout := none }
  := by
  use ⟨_, run_select_afterSocket, rfl⟩
  rintro ⟨hexecuted, -⟩
  obtain ⟨rd, wr, ex, tm, hfull, -⟩ := full_of_executed hexecuted
  cases congrArg SelectArgs.timeout hfull

end SocketToRdma

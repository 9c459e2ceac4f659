import FpgaCraft.Hardware.Raster
import FpgaCraft.Hardware.ScaleUp
import FpgaCraft.Hardware.TmdsLink

/-! The pixel clock side of `top_level.sv`, from the frame buffer to the three TMDS channels,
and what a monitor makes of them: the picture is shown whole, behind the raster by the
latency of the read path. -/
namespace FpgaCraft.Hardware
open Library

variable {content : BitVec 16 → BitVec 16}

structure VideoOut (buffer : FrameBuffer content) where
  mvg : VideoSigGen VideoParams.standard
  readPath : ReadPath buffer
  tmdsRed : TmdsEncoder
  tmdsGreen : TmdsEncoder
  tmdsBlue : TmdsEncoder

inductive Shown where
  | pixel (rgb : Rgb)
  | blank (vertSync horSync : Bool)
deriving DecidableEq

/-- The channels of a cycle must agree whether there is a pixel; the blue one has the syncs. -/
def Shown.ofSymbols (red green blue : TmdsSymbol) : Option Shown :=
  match red, green, blue with
  | .video red, .video green, .video blue => some (.pixel ⟨red, green, blue⟩)
  | .control _, .control _, .control syncs => some (.blank (syncs.getLsbD 1) (syncs.getLsbD 0))
  | _, _, _ => none

namespace VideoOut
variable {buffer : FrameBuffer content}

def position (self : VideoOut buffer) : Position where
  hcount := self.mvg.hcountOut.setWidth 11
  vcount := self.mvg.vcountOut.setWidth 10

/-- The inputs of an encoder. The colours are late, `active_draw` is not. -/
def tmdsIn (sysRst : Bool) (self : VideoOut buffer) (dataIn : BitVec 8) (controlIn : BitVec 2) : TmdsIn where
  rstIn := sysRst
  dataIn := dataIn
  controlIn := controlIn
  veIn := self.mvg.adOut

def risingPixelClkEdge (sysRst : Bool) (self : VideoOut buffer) : VideoOut buffer where
  mvg := self.mvg.risingPixelClkEdge sysRst
  readPath := self.readPath.risingClkEdge self.position
  tmdsRed := self.tmdsRed.risingClkEdge (self.tmdsIn sysRst self.readPath.rgb.red 0)
  tmdsGreen := self.tmdsGreen.risingClkEdge (self.tmdsIn sysRst self.readPath.rgb.green 0)
  tmdsBlue := self.tmdsBlue.risingClkEdge (self.tmdsIn sysRst self.readPath.rgb.blue
    (BitVec.ofBool self.mvg.vsOut ++ BitVec.ofBool self.mvg.hsOut))

def received (self : VideoOut buffer) : Option Shown :=
  Shown.ofSymbols (.decode self.tmdsRed.tmdsOut) (.decode self.tmdsGreen.tmdsOut)
    (.decode self.tmdsBlue.tmdsOut)

/-- The run after `btn[0]` is pressed for one cycle. -/
def afterReset (self : VideoOut buffer) : Nat → VideoOut buffer :=
  trace risingPixelClkEdge (fun n => decide (n = 0)) self

def scanPosition (n : Nat) : Position where
  hcount := BitVec.ofNat 11 (column VideoParams.standard.TOTAL_PIXELS n)
  vcount := BitVec.ofNat 10 (row VideoParams.standard.TOTAL_PIXELS VideoParams.standard.TOTAL_LINES n)

theorem received_edge (self : VideoOut buffer) :
    (self.risingPixelClkEdge false).received =
      some (if self.mvg.adOut then .pixel self.readPath.rgb else .blank self.mvg.vsOut self.mvg.hsOut) := by
  have symbol (encoder : TmdsEncoder) (dataIn : BitVec 8) (controlIn : BitVec 2) :
      TmdsSymbol.decode (encoder.risingClkEdge (self.tmdsIn false dataIn controlIn)).tmdsOut =
        if self.mvg.adOut then .video dataIn else .control controlIn :=
    TmdsEncoder.decode_edge _ rfl encoder
  simp only [received, risingPixelClkEdge, symbol]
  cases self.mvg.adOut with
  | true => rfl
  | false =>
    simp only [Bool.false_eq_true, if_false, Shown.ofSymbols]
    cases self.mvg.vsOut <;> cases self.mvg.hsOut <;> rfl

section Run
variable (self : VideoOut buffer)

theorem mvg_afterReset (n : Nat) :
    (self.afterReset (n + 1)).mvg = VideoSigGen.afterReset VideoParams.standard n := by
  induction n with
  | zero => rfl
  | succ n ih =>
    change (self.afterReset (n + 1)).mvg.risingPixelClkEdge false = _
    rw [ih]
    rfl

theorem shows_mvg (n : Nat) : (self.afterReset (n + 1)).mvg.Shows
    (column VideoParams.standard.TOTAL_PIXELS n)
    (row VideoParams.standard.TOTAL_PIXELS VideoParams.standard.TOTAL_LINES n) := by
  rw [mvg_afterReset]
  exact VideoSigGen.shows_afterReset VideoParams.positive_standard n

theorem position_afterReset (n : Nat) : (self.afterReset (n + 1)).position = scanPosition n := by
  have shows := self.shows_mvg n
  simp only [position, scanPosition, ← shows.hcount, ← shows.vcount, BitVec.ofNat_toNat]

/-- The colour goes back to two positions of the scan: one for the word, one for its validity. -/
theorem rgb_afterReset (n : Nat) :
    (self.afterReset (n + (buffer.latency + 2) + 1)).readPath.rgb =
      Rgb.select (scanPosition (n + buffer.latency)).sbufRValid
        (content ((scanPosition n).sbufRAddr.setWidth 16)) := by
  have part : ∀ k, (self.afterReset k).readPath =
      trace ReadPath.risingClkEdge (fun n => (self.afterReset n).position) self.readPath k :=
    fun k => trace_component readPath (fun _ s => s.position) (fun _ _ => rfl) _ self k
  rw [part, show n + (buffer.latency + 2) + 1 = n + 1 + (1 + buffer.latency) + 1 by omega,
    ReadPath.rgb_late]
  rw [show n + 1 + buffer.latency = n + buffer.latency + 1 by omega, position_afterReset,
    position_afterReset]

end Run

/-! ### The picture -/

section Picture
variable (self : VideoOut buffer) {n : Nat}

theorem hcount_scanPosition (n : Nat) :
    (scanPosition n).hcount.toNat = column VideoParams.standard.TOTAL_PIXELS n := by
  have bound : column VideoParams.standard.TOTAL_PIXELS n < 1650 := column_lt (by decide)
  rw [scanPosition, BitVec.toNat_ofNat]
  exact Nat.mod_eq_of_lt (by omega)

theorem vcount_scanPosition (n : Nat) : (scanPosition n).vcount.toNat =
    row VideoParams.standard.TOTAL_PIXELS VideoParams.standard.TOTAL_LINES n := by
  have bound : row VideoParams.standard.TOTAL_PIXELS VideoParams.standard.TOTAL_LINES n < 750 :=
    row_lt (by decide)
  rw [scanPosition, BitVec.toNat_ofNat]
  exact Nat.mod_eq_of_lt (by omega)

theorem scanPosition_sub {k : Nat} (left : k ≤ column VideoParams.standard.TOTAL_PIXELS n) :
    scanPosition (n - k) = ⟨BitVec.ofNat 11 (column VideoParams.standard.TOTAL_PIXELS n - k),
      BitVec.ofNat 10 (row VideoParams.standard.TOTAL_PIXELS VideoParams.standard.TOTAL_LINES n)⟩ := by
  rw [scanPosition, column_sub left, row_sub left]

theorem sbufRValid_scanPosition (n : Nat) : (scanPosition n).sbufRValid =
    (decide (column VideoParams.standard.TOTAL_PIXELS n < 1280) &&
      decide (row VideoParams.standard.TOTAL_PIXELS VideoParams.standard.TOTAL_LINES n < 720)) := by
  rw [Position.sbufRValid, hcount_scanPosition, vcount_scanPosition]

theorem valid_behind (early : 2 ≤ n) (line : row VideoParams.standard.TOTAL_PIXELS
      VideoParams.standard.TOTAL_LINES n < 720)
    (active : column VideoParams.standard.TOTAL_PIXELS n < 1280) :
    (scanPosition (n - 2)).sbufRValid =
      decide (2 ≤ column VideoParams.standard.TOTAL_PIXELS n) := by
  rw [sbufRValid_scanPosition]
  by_cases inside : 2 ≤ column VideoParams.standard.TOTAL_PIXELS n
  · rw [column_sub inside, row_sub inside, decide_eq_true inside, decide_eq_true line,
      decide_eq_true (by omega)]
    rfl
  · have wrapped := column_sub_of_lt (not_le.mp inside) early (show 2 ≤ 1650 by decide)
    rw [wrapped, decide_eq_false inside, decide_eq_false, Bool.false_and]
    change ¬1650 + _ - 2 < 1280
    omega

theorem received_afterReset (late : buffer.latency + 2 ≤ n) :
    (self.afterReset (n + 2)).received = some (
      if (self.afterReset (n + 1)).mvg.adOut then
        .pixel (Rgb.select (scanPosition (n - 2)).sbufRValid
          (content ((scanPosition (n - (buffer.latency + 2))).sbufRAddr.setWidth 16)))
      else .blank (self.afterReset (n + 1)).mvg.vsOut (self.afterReset (n + 1)).mvg.hsOut) := by
  have colour := self.rgb_afterReset (n - (buffer.latency + 2))
  rw [Nat.sub_add_cancel late, show n - (buffer.latency + 2) + buffer.latency = n - 2 by omega] at colour
  rw [← colour]
  exact received_edge (self.afterReset (n + 1))

theorem received_scan (late : buffer.latency + 2 ≤ n) :
    (self.afterReset (n + 2)).received = some (
      if n % 1650 < 1280 ∧ n / 1650 % 750 < 720 then
        .pixel (Rgb.select (scanPosition (n - 2)).sbufRValid
          (content ((scanPosition (n - (buffer.latency + 2))).sbufRAddr.setWidth 16)))
      else .blank (decide (725 ≤ n / 1650 % 750 ∧ n / 1650 % 750 < 730))
        (decide (1390 ≤ n % 1650 ∧ n % 1650 < 1430))) := by
  have shows := self.shows_mvg n
  have vert : (self.afterReset (n + 1)).mvg.vsOut = decide _ :=
    Bool.eq_iff_iff.mpr (shows.vs.trans decide_eq_true_iff.symm)
  have hor : (self.afterReset (n + 1)).mvg.hsOut = decide _ :=
    Bool.eq_iff_iff.mpr (shows.hs.trans decide_eq_true_iff.symm)
  rw [self.received_afterReset late, vert, hor, if_congr shows.ad rfl rfl]
  rfl

end Picture

section Place
variable {x y : Nat}

theorem active_ofNat (right : x < 1280) (line : y < 720) :
    (⟨BitVec.ofNat 11 x, BitVec.ofNat 10 y⟩ : Position).Active := by
  simp only [Position.Active, BitVec.toNat_ofNat]
  omega

theorem sbufRValid_ofNat (right : x < 1280) (line : y < 720) :
    (⟨BitVec.ofNat 11 x, BitVec.ofNat 10 y⟩ : Position).sbufRValid = true := by
  simp only [Position.sbufRValid, BitVec.toNat_ofNat, Bool.and_eq_true, decide_eq_true_eq]
  omega

theorem selected_ofNat (right : x < 1280) (line : y < 720) (hcolumn : x / 4 < FRAME_WIDTH)
    (hline : y / 4 < FRAME_HEIGHT) :
    ReadPath.selected content ⟨BitVec.ofNat 11 x, BitVec.ofNat 10 y⟩ =
      Rgb.expand (content (BitVec.ofNat 16 (y / 4 * FRAME_WIDTH + x / 4))) := by
  have hx : (BitVec.ofNat 11 x).toNat = x := Nat.mod_eq_of_lt (by omega)
  have hy : (BitVec.ofNat 10 y).toNat = y := Nat.mod_eq_of_lt (by omega)
  have inBuffer : (⟨BitVec.ofNat 11 x, BitVec.ofNat 10 y⟩ : Position).InBuffer := by
    simp only [Position.InBuffer, Position.cell, hx, hy]
    exact ⟨hcolumn, hline⟩
  rw [ReadPath.selected_of_inBuffer (active_ofNat right line) inBuffer, ReadPath.intended, if_pos inBuffer]
  simp only [Position.cell, hx, hy]

end Place

/-- From the reset on, the monitor gets syncs that are those of the raster, and a picture
that is the buffer's, each pixel at its place but for the latency of the read path. -/
theorem monitor_shows_buffer (self : VideoOut buffer) (n : Nat) (late : buffer.latency + 2 ≤ n) :
    let x := n % 1650
    let y := n / 1650 % 750
    let left := x - (buffer.latency + 2)
    let shown := (self.afterReset (n + 2)).received
    (¬(x < 1280 ∧ y < 720) →
        shown = some (.blank (decide (725 ≤ y ∧ y < 730)) (decide (1390 ≤ x ∧ x < 1430)))) ∧
      (x < 2 → y < 720 → shown = some (.pixel .black)) ∧
      (buffer.latency + 2 ≤ x → x < 1280 → y < 720 →
        shown = some (.pixel (ReadPath.selected content ⟨BitVec.ofNat 11 left, BitVec.ofNat 10 y⟩)) ∧
          (left / 4 < FRAME_WIDTH → y / 4 < FRAME_HEIGHT →
            shown = some (.pixel (Rgb.expand (content (BitVec.ofNat 16 (y / 4 * FRAME_WIDTH + left / 4))))))) := by
  intro x y left shown
  have columns : column VideoParams.standard.TOTAL_PIXELS n = x := rfl
  have received : shown = _ := self.received_scan late
  refine ⟨fun outside => ?_, fun edge line => ?_, fun inside right line => ?_⟩
  · rw [received, if_neg outside]
  · rw [received, if_pos ⟨by omega, line⟩, valid_behind (by omega) line (show x < 1280 by omega), columns,
      decide_eq_false (by omega)]
    rfl
  · have place : scanPosition (n - (buffer.latency + 2)) = ⟨BitVec.ofNat 11 left, BitVec.ofNat 10 y⟩ :=
      scanPosition_sub inside
    have colour : shown =
        some (.pixel (ReadPath.selected content ⟨BitVec.ofNat 11 left, BitVec.ofNat 10 y⟩)) := by
      rw [received, if_pos ⟨right, line⟩, valid_behind (by omega) line right, place, ReadPath.selected,
        sbufRValid_ofNat (by omega) line, columns, decide_eq_true (by omega)]
    refine ⟨colour, fun hcolumn hline => ?_⟩
    rw [colour, selected_ofNat (by omega) line hcolumn hline]

/-- The memory as the IP is configured: the word of the address is registered once more. -/
def registeredMemory (content : BitVec 16 → BitVec 16) : FrameBuffer content where
  State := BitVec 16 × BitVec 16
  step addrb s := (content addrb, s.1)
  doutb s := s.2
  latency := 2
  reads := by
    have word : Pipelines (fun addrb (s : BitVec 16 × BitVec 16) => (content addrb, s.1)) Prod.fst
        content 1 := pipelines_latch fun _ _ => rfl
    exact word.register id fun _ _ => rfl

def powerUp (content : BitVec 16 → BitVec 16) : VideoOut (registeredMemory content) where
  mvg := .reset _
  readPath := ⟨(0, 0), 0, false, .black⟩
  tmdsRed := .reset
  tmdsGreen := .reset
  tmdsBlue := .reset

theorem monitor_shows_buffer_corner :
    ((powerUp fun _ => 0xFFFF).afterReset 6).received = some (.pixel ⟨0xF8, 0xFC, 0xF8⟩) := by
  have shown := (monitor_shows_buffer (powerUp fun _ => 0xFFFF) 4 (Nat.le_refl 4)).2.2
    (Nat.le_refl 4) (by decide) (by decide)
  exact shown.2 (by decide) (by decide)

end VideoOut
end FpgaCraft.Hardware

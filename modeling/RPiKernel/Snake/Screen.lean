import RPiKernel.Snake.Picture

/-!
# The game on the screen

A frame of the game draws on the page that is not shown, and flips the pages then; so does each
flash of the screen before it. `Shows` says what is seen of this: from the first flip that succeeds
on, the page that is shown holds all of what has been flipped last, while the next picture is drawn.

## Implementation notes

The answer to the mailbox message of `Flip` is part of the action; one that fails changes neither
the page that is shown nor the page that is drawn next. `front` and `flipped` are not part of the
program: what has been flipped last, and whether the last flip has succeeded.
-/

namespace RPiKernel.Snake

open Framebuffer Interleaving Machine Transition

/-- The value of a color, with its blue bits lowest. -/
def Color565.value : Color565 → UInt16
  | .red => 0xF800
  | .black => 0x0000
  | .yellow => 0xFFE0
  | .green => 0x07E0

/-- What is drawn between two flips. -/
inductive Content where
  | flash
  | game (g : Game)

section System

variable (setup : Setup)

/-- The rectangle of `FlashScreen(Red)`. -/
def flashRectangles : List Rectangle := [⟨0, 0, setup.width, setup.height, .red⟩]

/-- The number of flashes in a frame: one for a head in the border, one for a head in the tail. -/
def flashes (input : Input) (g : Game) : Except Fault Nat := do
  let g := { g with direction := steer g.direction input }
  if input.time ≥ g.nextSimulationTime then
    let g ← moveSnake
      { g with nextSimulationTime := input.time + setup.performanceFrequency / 10 }
    let atBorder := if OutOfBounds setup g.head then 1 else 0
    let (g, _) ← checkBounds setup input.resetTime input.draws g
    let hit ← hitsTail g.tail g.head g.tailLength 0
    return atBorder + if hit then 1 else 0
  else
    return 0

/-- The game and the framebuffer. -/
structure Console where
  game : Game
  fb : Layout
  memory : Memory
  /-- The row of the framebuffer that is shown first. -/
  shown : UInt32
  /-- What is drawn, up to each of the next flips, and the rectangles that are left of it. -/
  pending : List (Content × List Rectangle)
  front : Option Content
  flipped : Bool

inductive Action where
  | frame (input : Input)
  | draw
  | flip (ok : Bool)

/-- The change of `yOffset` by a `Flip` that succeeds. -/
def flipPages (fb : Layout) : Layout :=
  { fb with yOffset := if fb.yOffset = 0 then fb.height else 0 }

/-- `WriteRectangle`, for a rectangle of the game. -/
def drawRectangle (fuel : Nat) (fb : Layout) (r : Rectangle) (m : Memory) : Progress Screen :=
  fb.writeRectangle fuel (UInt32.ofNat r.x) (UInt32.ofNat r.y) (UInt32.ofNat r.w) (UInt32.ofNat r.h)
    r.color.value ⟨m, []⟩

/-- One step of the loop of `Snake`: the simulation, a rectangle or a flip. -/
def step (fuel : Nat) (s : Console) : Action → Option Console
  | .frame input =>
      match s.pending with
      | [] => do
          let n ← (flashes setup input s.game).toOption
          let (game, picture) ← (frame setup input s.game).toOption
          some { s with
            game
            pending := List.replicate n (.flash, flashRectangles setup) ++ [(.game game, picture)] }
      | _ :: _ => none
  | .draw =>
      match s.pending with
      | (c, r :: rest) :: later =>
          let drawn := drawRectangle fuel s.fb r s.memory
          if drawn.ended then
            some { s with memory := drawn.state.memory, pending := (c, rest) :: later }
          else none
      | _ => none
  | .flip ok =>
      match s.pending with
      | (c, []) :: later =>
          if ok then
            some { s with
              fb := flipPages s.fb
              shown := s.fb.yOffset
              pending := later
              front := some c
              flipped := true }
          else some { s with pending := later, flipped := false }
      | _ => none

/-- The framebuffer has the size of the screen, and nothing has been drawn in it. -/
structure Console.Fresh (s : Console) : Prop where
  fits : s.fb.Fits
  width : s.fb.width.toNat = setup.width
  height : s.fb.height.toNat = setup.height
  pending : s.pending = []
  front : s.front = none
  flipped : s.flipped = false

/-- The game on the screen, from its first reset on. -/
def screenSystem (fuel : Nat) : System Console Action where
  Initial s := (snakeSystem setup).Initial s.game ∧ s.Fresh setup
  next s a := step setup fuel s a

/-- The rectangles of what is drawn. -/
def Content.rectangles : Content → List Rectangle
  | .flash => flashRectangles setup
  | .game g => Snake.rectangles setup g

/-- The color of what is drawn at a pixel. -/
def Content.color? : Content → Nat → Nat → Option Color565
  | .flash, _, _ => some .red
  | .game g, i, j => picture setup g i j

/-- The page from a row on holds the colors of what has been drawn. -/
def Console.Holds (s : Console) (row : UInt32) (colors : Nat → Nat → Option Color565) : Prop :=
  ∀ i < setup.width, ∀ j < setup.height, ∀ color, colors i j = some color →
    s.fb.pixel s.memory i (row.toNat + j) = colorBytes color.value

/-- What is seen of the game. -/
structure Console.Shows (fuel : Nat) (s : Console) : Prop where
  front : ∀ c, s.front = some c → s.Holds setup s.shown (c.color? setup)
  apart : s.front ≠ none → s.shown.toNat + s.fb.yOffset.toNat = setup.height
  game : s.pending = [] → s.flipped = true → s.front = some (.game s.game)
  completes : ∀ c rest later, s.pending = (c, rest) :: later →
    ∃ s', (screenSystem setup fuel).run s (List.replicate rest.length .draw ++ [.flip true]) =
      some s' ∧ s'.front = some c ∧ s'.pending = later ∧ s'.game = s.game

end System

section Invariant

variable {setup : Setup} {fuel : Nat} {s s' : Console} {c : Content} {r : Rectangle}

/-- What is drawn lies inside the border. -/
def Content.InGrid (setup : Setup) : Content → Prop
  | .flash => True
  | .game g => Snake.InGrid setup g

/-- What is drawn completes what is left, and the page holds the colors of what has been drawn. -/
def Console.Draws (setup : Setup) (s : Console) (c : Content) (rest : List Rectangle) : Prop :=
  ∃ done, done ++ rest = c.rectangles setup ∧ s.Holds setup s.fb.yOffset (topColor done)

structure Invariant (setup : Setup) (s : Console) : Prop where
  game : InGrid setup s.game
  fits : s.fb.Fits
  width : s.fb.width.toNat = setup.width
  height : s.fb.height.toNat = setup.height
  pending : ∀ p ∈ s.pending, p.1.InGrid setup
  drawn : ∀ c rest later, s.pending = (c, rest) :: later → s.Draws setup c rest
  later : ∀ p ∈ s.pending.tail, p.2 = p.1.rectangles setup
  last : ∀ c, (s.pending.map Prod.fst).getLast? = some c → c = .game s.game
  front : ∀ c, s.front = some c → s.Holds setup s.shown (c.color? setup)
  apart : s.front ≠ none → s.shown.toNat + s.fb.yOffset.toNat = setup.height
  flipped : s.pending = [] → s.flipped = true → s.front = some (.game s.game)

theorem Content.topColor_rectangles (hplayable : setup.Playable) (h : c.InGrid setup) {i j : Nat}
    (hi : i < setup.width) (hj : j < setup.height) :
    topColor (c.rectangles setup) i j = c.color? setup i j := by
  cases c with
  | flash =>
      have hcovers : (⟨0, 0, setup.width, setup.height, .red⟩ : Rectangle).Covers i j :=
        ⟨⟨Nat.zero_le i, by rwa [Nat.zero_add]⟩, Nat.zero_le j, by rwa [Nat.zero_add]⟩
      exact topColor_singleton.trans (if_pos hcovers)
  | game g => exact Snake.topColor_rectangles hplayable h hi hj

theorem Content.rectangles_inside (hplayable : setup.Playable) (h : c.InGrid setup)
    (hr : r ∈ c.rectangles setup) : r.x + r.w ≤ setup.width ∧ r.y + r.h ≤ setup.height := by
  cases c with
  | flash =>
      obtain rfl := List.mem_singleton.mp hr
      exact ⟨(Nat.zero_add _).le, (Nat.zero_add _).le⟩
  | game g => exact Snake.rectangles_inside hplayable h hr

/-- The sizes of a rectangle inside the screen, as the code takes them. -/
theorem toNat_ofNat_of_inside (hr : r.x + r.w ≤ setup.width ∧ r.y + r.h ≤ setup.height) :
    ((UInt32.ofNat r.x).toNat = r.x ∧ (UInt32.ofNat r.w).toNat = r.w) ∧
      (UInt32.ofNat r.y).toNat = r.y ∧ (UInt32.ofNat r.h).toNat = r.h := by
  have hwidth := setup.width_lt
  have hheight := setup.height_lt
  have hsize : UInt32.size = 4294967296 := rfl
  refine ⟨⟨?_, ?_⟩, ?_, ?_⟩ <;> exact UInt32.toNat_ofNat_of_lt' (by omega)

/-- Drawing a rectangle ends. -/
theorem drawRectangle_ended (h : Invariant setup s) (hfuel : setup.width + setup.height < fuel)
    (hr : r.x + r.w ≤ setup.width ∧ r.y + r.h ≤ setup.height) :
    (drawRectangle fuel s.fb r s.memory).ended = true := by
  have hpitch := s.fb.pitch.toNat_lt
  have hcolumns := h.fits.columns
  have hwidth := h.width
  obtain ⟨⟨hx, hw⟩, hy, hh⟩ := toNat_ofNat_of_inside hr
  refine writeRectangle_ended ?_ ?_ ?_
  · rw [hx, hw]
    omega
  · rw [hw]
    omega
  · rw [hh]
    omega

/-- The pixels after a rectangle has been drawn. -/
theorem pixel_drawRectangle (h : Invariant setup s)
    (hr : r.x + r.w ≤ setup.width ∧ r.y + r.h ≤ setup.height)
    (hended : (drawRectangle fuel s.fb r s.memory).ended = true) {i row : Nat}
    (hi : i < setup.width) (hrow : row < 2 * setup.height) :
    s.fb.pixel (drawRectangle fuel s.fb r s.memory).state.memory i row =
      if Covers r.x (s.fb.yOffset.toNat + r.y) r.w r.h i row then colorBytes r.color.value
      else s.fb.pixel s.memory i row := by
  have hwidth := h.width
  have hheight := h.height
  obtain ⟨⟨hx, hw⟩, hy, hh⟩ := toNat_ofNat_of_inside hr
  have hpixel : s.fb.pixel (drawRectangle fuel s.fb r s.memory).state.memory i row = _ :=
    pixel_writeRectangle h.fits (by omega) (by omega) hended (by omega) (by omega)
  rwa [hx, hw, hy, hh] at hpixel

theorem Invariant.initial (hplayable : setup.Playable) (hgame : (snakeSystem setup).Initial s.game)
    (h : s.Fresh setup) : Invariant setup s := by
  obtain ⟨before, time, draws, rest, hreset⟩ := hgame
  constructor
  case game => exact yields_resetSnake hplayable _ hreset
  case fits => exact h.fits
  case width => exact h.width
  case height => exact h.height
  case pending =>
    rw [h.pending]
    exact fun p hp => absurd hp List.not_mem_nil
  case drawn =>
    rw [h.pending]
    intro c rest later hlist
    cases hlist
  case later =>
    rw [h.pending]
    exact fun p hp => absurd hp List.not_mem_nil
  case last =>
    rw [h.pending]
    intro p hp
    cases hp
  case front =>
    rw [h.front]
    intro c hc
    cases hc
  case apart => exact fun hfront => absurd h.front hfront
  case flipped =>
    rw [h.flipped]
    intro _ hflipped
    cases hflipped

/-- Nothing is drawn of a picture when its first rectangle is still to come. -/
theorem Console.Draws.start (s : Console) (c : Content) : s.Draws setup c (c.rectangles setup) :=
  ⟨[], List.nil_append _, fun i _ j _ color hcolor => by cases hcolor⟩

/-- A frame puts off what it draws. -/
theorem Invariant.frame (hplayable : setup.Playable) (h : Invariant setup s) {input : Input}
    (hs : step setup fuel s (.frame input) = some s') : Invariant setup s' := by
  rw [step] at hs
  split at hs
  · next hpending =>
    obtain ⟨n, -, hs⟩ := Option.bind_eq_some_iff.mp hs
    obtain ⟨⟨game, picture⟩, hframe, hs⟩ := Option.bind_eq_some_iff.mp hs
    obtain rfl := Option.some.inj hs
    have hok : Snake.frame setup input s.game = .ok (game, picture) := by
      cases hcase : Snake.frame setup input s.game with
      | ok r => rw [hcase] at hframe; exact congrArg _ (Option.some.inj hframe)
      | error e => rw [hcase] at hframe; cases hframe
    obtain ⟨hgame, hdraw⟩ := yields_frame hplayable h.game _ hok
    have hpicture : picture = Content.rectangles setup (.game game) := by
      rw [draw_eq hplayable hgame] at hdraw
      exact (Except.ok.inj hdraw).symm
    have hmem (p : Content × List Rectangle)
        (hp : p ∈ List.replicate n (Content.flash, flashRectangles setup) ++
          [(.game game, picture)]) : p.1.InGrid setup ∧ p.2 = p.1.rectangles setup := by
      rcases List.mem_append.mp hp with hp | hp
      · rw [List.eq_of_mem_replicate hp]
        exact ⟨trivial, rfl⟩
      · rw [List.mem_singleton.mp hp]
        exact ⟨hgame, hpicture⟩
    constructor
    case game => exact hgame
    case fits => exact h.fits
    case width => exact h.width
    case height => exact h.height
    case pending => exact fun p hp => (hmem p hp).1
    case drawn =>
      intro c rest later hlist
      have hfirst : (c, rest) ∈ List.replicate n (Content.flash, flashRectangles setup) ++
          [(.game game, picture)] := by
        rw [show List.replicate n (Content.flash, flashRectangles setup) ++
          [(.game game, picture)] = _ from hlist]
        exact List.mem_cons_self
      have hrest : rest = c.rectangles setup := (hmem _ hfirst).2
      rw [hrest]
      exact Console.Draws.start _ c
    case later => exact fun p hp => (hmem p (List.mem_of_mem_tail hp)).2
    case last =>
      intro c hc
      rw [List.map_append, List.getLast?_append] at hc
      exact (Option.some.inj hc).symm
    case front => exact h.front
    case apart => exact h.apart
    case flipped =>
      intro hnil
      simp at hnil
  · cases hs

/-- The page that is shown is apart from the rows that are drawn. -/
theorem Invariant.not_covers (h : Invariant setup s) (hfront : s.front ≠ none)
    (hr : r.x + r.w ≤ setup.width ∧ r.y + r.h ≤ setup.height) {i j : Nat} (hj : j < setup.height) :
    ¬Covers r.x (s.fb.yOffset.toNat + r.y) r.w r.h i (s.shown.toNat + j) := by
  have hapart := h.apart hfront
  have hheight := h.height
  rintro ⟨-, hrow⟩
  rcases h.fits.page with hzero | hpage
  · rw [hzero, UInt32.toNat_zero] at hapart hrow
    omega
  · rw [hpage] at hapart hrow
    omega

/-- A rectangle is drawn on the page that is not shown. -/
theorem Invariant.draw (hplayable : setup.Playable) (h : Invariant setup s)
    (hs : step setup fuel s .draw = some s') : Invariant setup s' := by
  rw [step] at hs
  split at hs
  · next c r rest later hpending =>
    simp only at hs
    split at hs
    · next hended =>
      obtain rfl := Option.some.inj hs
      have hmem : (c, r :: rest) ∈ s.pending := by
        rw [hpending]
        exact List.mem_cons_self
      have hgrid := h.pending _ hmem
      obtain ⟨done, hdone, hholds⟩ := h.drawn _ _ _ hpending
      have hr : r.x + r.w ≤ setup.width ∧ r.y + r.h ≤ setup.height := by
        apply Content.rectangles_inside hplayable hgrid
        rw [← hdone]
        exact List.mem_append_right done List.mem_cons_self
      have hheight := h.height
      have hpage : s.fb.yOffset.toNat ≤ setup.height := by
        rcases h.fits.page with hzero | hsame
        · rw [hzero]
          exact Nat.zero_le _
        · rw [hsame, hheight]
      constructor
      case game => exact h.game
      case fits => exact h.fits
      case width => exact h.width
      case height => exact h.height
      case pending =>
        intro p hp
        rcases List.mem_cons.mp hp with rfl | hp
        · exact hgrid
        · exact h.pending p (hpending ▸ List.mem_cons_of_mem _ hp)
      case drawn =>
        intro c' rest' later' hlist
        cases hlist
        refine ⟨done ++ [r], by rw [List.append_assoc]; exact hdone, fun i hi j hj color hcolor => ?_⟩
        rw [topColor_append, topColor_singleton, Rectangle.color?] at hcolor
        have hpixel : s.fb.pixel (drawRectangle fuel s.fb r s.memory).state.memory i
            (s.fb.yOffset.toNat + j) = _ := pixel_drawRectangle h hr hended hi (by omega)
        refine hpixel.trans ?_
        have hcovers : Covers r.x (s.fb.yOffset.toNat + r.y) r.w r.h i (s.fb.yOffset.toNat + j) ↔
            r.Covers i j := by
          rw [Rectangle.Covers, Covers, Covers]
          omega
        by_cases hcover : r.Covers i j
        · rw [if_pos hcover, Option.some_or] at hcolor
          rw [if_pos (hcovers.mpr hcover), Option.some.inj hcolor]
        · rw [if_neg hcover, Option.none_or] at hcolor
          rw [if_neg fun hc => hcover (hcovers.mp hc)]
          exact hholds i hi j hj color hcolor
      case later =>
        intro p hp
        exact h.later p (hpending ▸ hp)
      case last =>
        have hlast := h.last
        rw [hpending] at hlast
        exact hlast
      case front =>
        intro c' hc' i hi j hj color hcolor
        have hshown : s.shown.toNat ≤ setup.height := by
          have hapart := h.apart (by rw [hc']; exact Option.some_ne_none _)
          omega
        have hpixel : s.fb.pixel (drawRectangle fuel s.fb r s.memory).state.memory i
            (s.shown.toNat + j) = _ := pixel_drawRectangle h hr hended hi (by omega)
        refine hpixel.trans ?_
        rw [if_neg (h.not_covers (by rw [hc']; exact Option.some_ne_none _) hr hj)]
        exact h.front c' hc' i hi j hj color hcolor
      case apart => exact h.apart
      case flipped =>
        intro hnil
        cases hnil
    · cases hs
  · cases hs

theorem fits_flipPages {fb : Layout} (h : fb.Fits) : (flipPages fb).Fits := by
  refine ⟨h.columns, h.rows, ?_⟩
  rw [flipPages]
  split
  · exact Or.inr rfl
  · exact Or.inl rfl

/-- The page that is drawn next is the other one. -/
theorem add_yOffset_flipPages {fb : Layout} (h : fb.Fits) :
    fb.yOffset.toNat + (flipPages fb).yOffset.toNat = fb.height.toNat := by
  rw [flipPages]
  rcases h.page with hzero | hpage
  · rw [if_pos hzero, hzero, UInt32.toNat_zero, Nat.zero_add]
  · by_cases hzero : fb.yOffset = 0
    · rw [if_pos hzero, hzero, UInt32.toNat_zero, Nat.zero_add]
    · rw [if_neg hzero, hpage, UInt32.toNat_zero, Nat.add_zero]

/-- A flip shows what has been drawn. -/
theorem Invariant.flip (hplayable : setup.Playable) (h : Invariant setup s) {ok : Bool}
    (hs : step setup fuel s (.flip ok) = some s') : Invariant setup s' := by
  rw [step] at hs
  split at hs
  · next c later hpending =>
    have hmem : ∀ p ∈ later, p ∈ s.pending.tail := fun p hp => by rw [hpending]; exact hp
    have hcontent : c.InGrid setup := by
      refine h.pending (c, []) ?_
      rw [hpending]
      exact List.mem_cons_self
    have hlast : ∀ d, (later.map Prod.fst).getLast? = some d → d = .game s.game := by
      intro d hd
      refine h.last d ?_
      rw [hpending, List.map_cons, List.getLast?_cons, hd]
      rfl
    have hgame : later = [] → c = .game s.game := by
      intro hnil
      refine h.last c ?_
      rw [hpending, hnil]
      rfl
    have hdrawn : ∀ (t : Console) c' rest' later', t.pending = (c', rest') :: later' →
        t.pending = later → t.Draws setup c' rest' := by
      intro t c' rest' later' hlist heq
      have hrest : rest' = c'.rectangles setup := by
        refine h.later (c', rest') (hmem _ ?_)
        rw [← heq, hlist]
        exact List.mem_cons_self
      rw [hrest]
      exact Console.Draws.start t c'
    obtain ⟨done, hdone, hholds⟩ := h.drawn _ _ _ hpending
    have hcolors : s.Holds setup s.fb.yOffset (c.color? setup) := by
      intro i hi j hj color hcolor
      refine hholds i hi j hj color ?_
      rw [List.append_nil] at hdone
      rw [hdone, Content.topColor_rectangles hplayable hcontent hi hj, hcolor]
    have hpending' : ∀ p ∈ later, p.1.InGrid setup :=
      fun p hp => h.pending p (List.mem_of_mem_tail (hmem p hp))
    have hlater : ∀ p ∈ later.tail, p.2 = p.1.rectangles setup :=
      fun p hp => h.later p (hmem p (List.mem_of_mem_tail hp))
    split at hs
    · obtain rfl := Option.some.inj hs
      constructor
      case game => exact h.game
      case fits => exact fits_flipPages h.fits
      case width => exact h.width
      case height => exact h.height
      case pending => exact hpending'
      case drawn => exact fun c' rest' later' hlist => hdrawn _ c' rest' later' hlist rfl
      case later => exact hlater
      case last => exact hlast
      case front =>
        intro c' hc'
        cases hc'
        exact hcolors
      case apart => exact fun _ => (add_yOffset_flipPages h.fits).trans h.height
      case flipped => exact fun hnil _ => congrArg some (hgame hnil)
    · obtain rfl := Option.some.inj hs
      constructor
      case game => exact h.game
      case fits => exact h.fits
      case width => exact h.width
      case height => exact h.height
      case pending => exact hpending'
      case drawn => exact fun c' rest' later' hlist => hdrawn _ c' rest' later' hlist rfl
      case later => exact hlater
      case last => exact hlast
      case front => exact h.front
      case apart => exact h.apart
      case flipped =>
        intro _ hflipped
        cases hflipped
  · cases hs

theorem Invariant.of_reachable (hplayable : setup.Playable)
    (h : (screenSystem setup fuel).Reachable s) : Invariant setup s := by
  refine h.invariant (I := Invariant setup) ?_ ?_
  · rintro s ⟨hgame, hfresh⟩
    exact Invariant.initial hplayable hgame hfresh
  intro s a s' hs hstep
  have hstep : step setup fuel s a = some s' := hstep
  cases a with
  | frame input => exact hs.frame hplayable hstep
  | draw => exact hs.draw hplayable hstep
  | flip ok => exact hs.flip hplayable hstep

/-- The next rectangle is drawn. -/
theorem Invariant.exists_draw (hplayable : setup.Playable) (h : Invariant setup s)
    (hfuel : setup.width + setup.height < fuel) {rest : List Rectangle}
    {later : List (Content × List Rectangle)} (hpending : s.pending = (c, r :: rest) :: later) :
    ∃ s', step setup fuel s .draw = some s' ∧ s'.pending = (c, rest) :: later ∧
      s'.game = s.game := by
  obtain ⟨done, hdone, -⟩ := h.drawn _ _ _ hpending
  have hgrid : c.InGrid setup := by
    refine h.pending (c, r :: rest) ?_
    rw [hpending]
    exact List.mem_cons_self
  have hr : r.x + r.w ≤ setup.width ∧ r.y + r.h ≤ setup.height := by
    apply Content.rectangles_inside hplayable hgrid
    rw [← hdone]
    exact List.mem_append_right done List.mem_cons_self
  have hended := drawRectangle_ended h hfuel hr
  have hstep : step setup fuel s .draw = some { s with
      memory := (drawRectangle fuel s.fb r s.memory).state.memory
      pending := (c, rest) :: later } := by
    rw [step, hpending]
    exact if_pos hended
  exact ⟨_, hstep, rfl, rfl⟩

/-- What is drawn is completed and shown, by as many steps as it has rectangles left and a flip. -/
theorem Invariant.completes (hplayable : setup.Playable) (h : Invariant setup s)
    (hfuel : setup.width + setup.height < fuel) {rest : List Rectangle}
    {later : List (Content × List Rectangle)} (hpending : s.pending = (c, rest) :: later) :
    ∃ s', (screenSystem setup fuel).run s (List.replicate rest.length .draw ++ [.flip true]) =
      some s' ∧ s'.front = some c ∧ s'.pending = later ∧ s'.game = s.game := by
  induction rest generalizing s with
  | nil =>
      have hnext : (screenSystem setup fuel).next s (.flip true) = some { s with
          fb := flipPages s.fb
          shown := s.fb.yOffset
          pending := later
          front := some c
          flipped := true } := by
        change step setup fuel s (.flip true) = _
        rw [step, hpending]
        rfl
      exact ⟨_, System.run_cons_of_next hnext [], rfl, rfl, rfl⟩
  | cons r rest ih =>
      obtain ⟨s₁, hs₁, hpending₁, hgame₁⟩ := h.exists_draw hplayable hfuel hpending
      obtain ⟨s', hrun, hfront, hlater, hgame⟩ := ih (h.draw hplayable hs₁) hpending₁
      refine ⟨s', ?_, hfront, hlater, hgame.trans hgame₁⟩
      have hnext : (screenSystem setup fuel).next s .draw = some s₁ := hs₁
      exact (System.run_cons_of_next hnext _).trans hrun

/-- Whatever the frames, their input and the answers to the flips: the page that is shown holds what
has been flipped last, it is apart from the page that is drawn, and between the frames it holds the
picture of the game. -/
theorem screen_shows (hplayable : setup.Playable) (hfuel : setup.width + setup.height < fuel)
    (h : (screenSystem setup fuel).Reachable s) : s.Shows setup fuel := by
  have hinvariant := Invariant.of_reachable hplayable h
  constructor
  case front => exact hinvariant.front
  case apart => exact hinvariant.apart
  case game => exact hinvariant.flipped
  case completes => exact fun c rest later hp => hinvariant.completes hplayable hfuel hp

/-- A game before its first frame. -/
def firstGame : Game where
  head := ⟨10, 7⟩
  tail := fun _ => ⟨0, 0⟩
  tailLength := 0
  fruit := ⟨1, 1⟩
  direction := .none
  nextSimulationTime := 1000

/-- The screen in front of the first frame. -/
def firstConsole : Console where
  game := firstGame
  fb := ⟨0x3C100000, 1280, 640, 480, 0⟩
  memory := fun _ => 0
  shown := 0
  pending := []
  front := none
  flipped := false

/-- A frame that comes too early for the simulation. -/
def earlyInput : Input := ⟨true, false, false, false, 0, 0, []⟩

theorem firstConsole_initial : (screenSystem smallScreen 2000).Initial firstConsole := by
  have hspawn : spawnFruit smallScreen ⟨smallScreen.gridWidth / 2, smallScreen.gridHeight / 2⟩
      [(0, 0)] = .ok (⟨1, 1⟩, []) := by decide +kernel
  have hreset : resetSnake smallScreen 1000 [(0, 0)] firstGame = .ok (firstGame, []) := by
    rw [resetSnake, hspawn]
    rfl
  refine ⟨⟨firstGame, 1000, [(0, 0)], [], hreset⟩, ?_⟩
  constructor
  case fits => exact ⟨by decide +kernel, by decide +kernel, Or.inl rfl⟩
  all_goals rfl

/-- The first frame is shown. -/
theorem screen_shows_firstFrame : ∃ s c, (screenSystem smallScreen 2000).Reachable s ∧
    s.front = some c ∧ s.Shows smallScreen 2000 := by
  have hfuel : smallScreen.width + smallScreen.height < 2000 := by decide
  have hstart : (screenSystem smallScreen 2000).Reachable firstConsole :=
    System.ReachableBy.initial firstConsole_initial
  obtain ⟨s₁, hs₁, hpending⟩ : ∃ s₁, step smallScreen 2000 firstConsole (.frame earlyInput) =
      some s₁ ∧ ∃ g rest, s₁.pending = [(.game g, rest)] := ⟨_, rfl, _, _, rfl⟩
  obtain ⟨g, rest, hpending⟩ := hpending
  have hreach₁ := hstart.step (.frame earlyInput) hs₁
  obtain ⟨s, hrun, hfront, -⟩ :=
    (screen_shows smallScreen_playable hfuel hreach₁).completes _ _ _ hpending
  have hreach : (screenSystem smallScreen 2000).Reachable s :=
    hreach₁.runWhere (fun _ _ _ => trivial) _ hrun
  exact ⟨s, .game g, hreach, hfront, screen_shows smallScreen_playable hfuel hreach⟩

end Invariant

end RPiKernel.Snake

import HiddenSteps.Domain.Event
import HiddenSteps.Systems.Changes
import HiddenSteps.Text.Lossy

/-!
# ActiveWindow — which window has the focus

Every platform has a source that is asked for the focused window and reports an application when the
focus moves, and a title when the title changes.  The sources differ in how they ask, and in what
they tell windows apart by.
-/

namespace HiddenSteps
namespace Observation

open Systems Text

/-! ## Polls -/

namespace Linux

/-- What the X server answers during a poll. -/
structure FocusAnswers where
  getInputFocus : Except String Nat
  /-- The bytes of `WM_CLASS`, by window. -/
  wmClass : Nat → Except String (List UInt8)
  /-- The bytes of `_NET_WM_NAME`, by window. -/
  netWmName : Nat → Except String (List UInt8)

structure ActiveWindowSource where
  lastWindow : Option Nat
  lastClass : Option String
  lastTitle : Option String
  deriving DecidableEq

namespace ActiveWindowSource

def id : String := "linux.active_window"

/-- The class behind the instance name; each ends with a zero byte. -/
def wmClass (answers : FocusAnswers) (window : Nat) : Except String (Option String) :=
  (answers.wmClass window).map fun value =>
    (((value.splitOn 0)[1]?).filter fun s => !s.isEmpty).map fromUtf8Lossy

def windowTitle (answers : FocusAnswers) (window : Nat) : Except String (Option String) :=
  (answers.netWmName window).map fun value =>
    if value.isEmpty then none else some (fromUtf8Lossy value)

/-- A title that is a text is read as it is. -/
theorem windowTitle_of_text {answers : FocusAnswers} {window : Nat} {text : List Char}
    (h : answers.netWmName window = .ok (text.flatMap String.utf8EncodeChar)) (hne : text ≠ []) :
    windowTitle answers window = .ok (some (String.ofList text)) := by
  have hbytes : (text.flatMap String.utf8EncodeChar).isEmpty = false := by
    rcases List.exists_cons_of_ne_nil hne with ⟨c, rest, rfl⟩
    simp [String.utf8EncodeChar_ne_nil]
  simp [windowTitle, h, Except.map, hbytes, fromUtf8Lossy_encode]

def poll (source : ActiveWindowSource) (answers : FocusAnswers) :
    Except String (List CapturedSignal) × ActiveWindowSource :=
  match answers.getInputFocus with
  | .error e => (.error e, source)
  | .ok window =>
      -- no window has the focus
      if window ≤ 1 then (.ok [], source)
      else
        match wmClass answers window with
        | .error e => (.error e, source)
        | .ok class_ =>
            match windowTitle answers window with
            | .error e => (.error e, source)
            | .ok title =>
                let focused :=
                  if source.lastWindow ≠ some window then
                    (class_.map fun app =>
                      CapturedSignal.mk id (.appFocusChange app)).toList
                  else []
                let titled :=
                  if source.lastTitle ≠ title then
                    (title.map fun t => CapturedSignal.mk id (.windowTitle t)).toList
                  else []
                (.ok (focused ++ titled),
                  { lastWindow := some window, lastClass := class_, lastTitle := title })

end ActiveWindowSource
end Linux

/-! ## macOS -/

namespace MacOs

/-- An entry of the list of windows on the screen, front to back. -/
structure WindowInfo where
  layer : Option Int
  ownerName : Option String
  name : Option String
  deriving DecidableEq

def normalWindowLayer : Int := 0

structure ActiveWindowSource where
  lastOwner : Option String
  lastTitle : Option String
  deriving DecidableEq

namespace ActiveWindowSource

def id : String := "macos.active_window"

def new : ActiveWindowSource := { lastOwner := none, lastTitle := none }

/-- The first window of an application, with its owner. -/
def frontmostWindow : List WindowInfo → Option (String × Option String)
  | [] => none
  | window :: windows =>
      if window.layer.getD (-1) ≠ normalWindowLayer then frontmostWindow windows
      else
        match window.ownerName with
        | none => frontmostWindow windows
        | some owner => some (owner, window.name)

/-- `windows` is `none` when the system yields no list. -/
def poll (source : ActiveWindowSource) (windows : Option (List WindowInfo)) :
    Except String (List CapturedSignal) × ActiveWindowSource :=
  match windows.bind frontmostWindow with
  | none => (.ok [], source)
  | some (owner, title) =>
      let focused :=
        if source.lastOwner ≠ some owner then [CapturedSignal.mk id (.appFocusChange owner)]
        else []
      let titled :=
        if source.lastTitle ≠ title then
          (title.map fun t => CapturedSignal.mk id (.windowTitle t)).toList
        else []
      (.ok (focused ++ titled), { lastOwner := some owner, lastTitle := title })

end ActiveWindowSource
end MacOs

/-! ## Windows -/

namespace Windows

/-- What the system answers during a poll. -/
structure ForegroundAnswers where
  /-- Zero when there is no foreground window. -/
  getForegroundWindow : Int
  /-- The process of a window, zero when it has none. -/
  getWindowThreadProcessId : Int → Nat
  openProcess : Nat → Bool
  queryFullProcessImageName : Nat → Option (List UInt16)
  getWindowText : Int → List UInt16

structure ActiveWindowSource where
  lastHwnd : Option Int
  lastProcessPath : Option String
  lastTitle : Option String
  deriving DecidableEq

namespace ActiveWindowSource

def id : String := "windows.active_window"

def new : ActiveWindowSource := { lastHwnd := none, lastProcessPath := none, lastTitle := none }

def windowTitle (answers : ForegroundAnswers) (hwnd : Int) : Option String :=
  let text := answers.getWindowText hwnd
  if text.isEmpty then none else some (fromUtf16Lossy text)

theorem windowTitle_of_text {answers : ForegroundAnswers} {hwnd : Int} {text : List Char}
    (h : answers.getWindowText hwnd = text.flatMap utf16EncodeChar) (hne : text ≠ []) :
    windowTitle answers hwnd = some (String.ofList text) := by
  have hunits : (text.flatMap utf16EncodeChar).isEmpty = false := by
    rcases List.exists_cons_of_ne_nil hne with ⟨c, rest, rfl⟩
    simp [utf16EncodeChar_ne_nil]
  simp [windowTitle, h, hunits, fromUtf16Lossy_encode]

def owningProcessPath (answers : ForegroundAnswers) (hwnd : Int) : Option String :=
  let pid := answers.getWindowThreadProcessId hwnd
  if pid = 0 then none
  else if answers.openProcess pid then
    (answers.queryFullProcessImageName pid).map fromUtf16Lossy
  else none

def poll (source : ActiveWindowSource) (answers : ForegroundAnswers) :
    Except String (List CapturedSignal) × ActiveWindowSource :=
  let hwnd := answers.getForegroundWindow
  if hwnd = 0 then (.ok [], source)
  else
    let title := windowTitle answers hwnd
    let titled :=
      if title ≠ source.lastTitle then
        (title.map fun t => CapturedSignal.mk id (.windowTitle t)).toList
      else []
    if source.lastHwnd ≠ some hwnd then
      -- the process is asked for only when the window is another one
      let processPath := owningProcessPath answers hwnd
      let focused :=
        (processPath.map fun path => CapturedSignal.mk id (.appFocusChange path)).toList
      (.ok (focused ++ titled),
        { lastHwnd := some hwnd, lastProcessPath := processPath, lastTitle := title })
    else
      (.ok titled, { source with lastHwnd := some hwnd, lastTitle := title })

end ActiveWindowSource
end Windows

/-! ## Following the focus -/

/-- A focused window, with what can be told of it. -/
structure Focus (κ : Type) where
  window : κ
  app : Option String
  title : Option String
  deriving DecidableEq

def appOf (signal : CapturedSignal) : Option String :=
  match signal.payload with
  | .appFocusChange app => some app
  | _ => none

def titleOf (signal : CapturedSignal) : Option String :=
  match signal.payload with
  | .windowTitle title => some title
  | _ => none

section Follows

variable {σ ι κ : Type} [DecidableEq κ] {S : Sensor σ ι CapturedSignal} {id : String}
  {window : σ → Option κ} {title : σ → Option String} {focus : ι → Option (Focus κ)} {s : σ}

/-- One poll: the window and the title are remembered, and told when they are new. -/
structure Follows (S : Sensor σ ι CapturedSignal) (id : String) (window : σ → Option κ)
    (title : σ → Option String) (focus : ι → Option (Focus κ)) : Prop where
  unfocused : ∀ s i, focus i = none →
    window (S.read s i).1 = window s ∧ title (S.read s i).1 = title s ∧ (S.read s i).2 = []
  focused : ∀ s i f, focus i = some f →
    window (S.read s i).1 = some f.window ∧ title (S.read s i).1 = f.title ∧
      (S.read s i).2 =
        (if window s = some f.window then []
          else (f.app.map fun app => CapturedSignal.mk id (.appFocusChange app)).toList) ++
        if title s = f.title then []
        else (f.title.map fun t => CapturedSignal.mk id (.windowTitle t)).toList

@[simp] theorem filterMap_appOf_app (app : Option String) :
    (app.map fun app => CapturedSignal.mk id (.appFocusChange app)).toList.filterMap appOf =
      app.toList := by
  cases app <;> rfl

@[simp] theorem filterMap_appOf_title (t : Option String) :
    (t.map fun t => CapturedSignal.mk id (.windowTitle t)).toList.filterMap appOf = [] := by
  cases t <;> rfl

@[simp] theorem filterMap_titleOf_app (app : Option String) :
    (app.map fun app => CapturedSignal.mk id (.appFocusChange app)).toList.filterMap titleOf =
      [] := by
  cases app <;> rfl

@[simp] theorem filterMap_titleOf_title (t : Option String) :
    (t.map fun t => CapturedSignal.mk id (.windowTitle t)).toList.filterMap titleOf =
      t.toList := by
  cases t <;> rfl

/-- The applications are told when the window changes. -/
def Follows.appWatch (h : Follows S id window title focus) : Sensor.Watch S κ appOf where
  last := window
  sees i := (focus i).map Focus.window
  tells i := (focus i).bind Focus.app
  blind := by
    intro s i hnone
    rcases h.unfocused s i (Option.map_eq_none_iff.1 hnone) with ⟨hwindow, _, hsignals⟩
    rw [hsignals]
    exact ⟨hwindow, rfl⟩
  same := by
    intro s i k hsome hlast
    rcases Option.map_eq_some_iff.1 hsome with ⟨f, hf, rfl⟩
    rcases h.focused s i f hf with ⟨hwindow, _, hsignals⟩
    refine ⟨hwindow, ?_⟩
    rw [hsignals, if_pos hlast]
    split <;> simp
  new := by
    intro s i k hsome hlast
    rcases Option.map_eq_some_iff.1 hsome with ⟨f, hf, rfl⟩
    rcases h.focused s i f hf with ⟨hwindow, _, hsignals⟩
    refine ⟨hwindow, ?_⟩
    rw [hsignals, if_neg hlast, hf]
    split <;> simp

/-- The titles are told when they change, whatever the window. -/
def Follows.titleWatch (h : Follows S id window title focus) :
    Sensor.Watch S (Option String) titleOf where
  last s := some (title s)
  sees i := (focus i).map Focus.title
  tells i := (focus i).bind Focus.title
  blind := by
    intro s i hnone
    rcases h.unfocused s i (Option.map_eq_none_iff.1 hnone) with ⟨_, htitle, hsignals⟩
    rw [hsignals, htitle]
    exact ⟨rfl, rfl⟩
  same := by
    intro s i k hsome hlast
    rcases Option.map_eq_some_iff.1 hsome with ⟨f, hf, rfl⟩
    rcases h.focused s i f hf with ⟨_, htitle, hsignals⟩
    refine ⟨congrArg some htitle, ?_⟩
    rw [hsignals, if_pos (Option.some.inj hlast)]
    split <;> simp
  new := by
    intro s i k hsome hlast
    rcases Option.map_eq_some_iff.1 hsome with ⟨f, hf, rfl⟩
    rcases h.focused s i f hf with ⟨_, htitle, hsignals⟩
    refine ⟨congrArg some htitle, ?_⟩
    rw [hsignals, if_neg fun heq => hlast (congrArg some heq), hf]
    split <;> simp

/-- The applications over a run: those of the windows that the focus has moved to. -/
theorem Follows.apps_eq (h : Follows S id window title focus) (hs : window s = none)
    (polls : List ι) :
    (S.run s polls).2.filterMap appOf =
      ((polls.filterMap focus).destutter fun f g => f.window ≠ g.window).filterMap Focus.app := by
  have hseen : h.appWatch.seen polls = (polls.filterMap focus).map fun f => (f.window, f.app) := by
    rw [Sensor.Watch.seen, List.map_filterMap]
    refine List.filterMap_congr fun i _ => ?_
    show ((focus i).map Focus.window).map (fun k => (k, (focus i).bind Focus.app)) = _
    cases focus i <;> rfl
  have hlast : h.appWatch.last s = none := hs
  rw [h.appWatch.reports_eq, hlast, changes_none, hseen,
    ← List.map_destutter (R := fun f g : Focus κ => f.window ≠ g.window) (by simp), List.map_map]
  exact List.filterMap_map ..

/-- The titles over a run: those seen, without immediate repetitions. -/
theorem Follows.titles_eq (h : Follows S id window title focus) (hs : title s = none)
    (polls : List ι) :
    (S.run s polls).2.filterMap titleOf =
      ((none :: (polls.filterMap focus).map Focus.title).destutter (· ≠ ·)).reduceOption := by
  have hseen : h.titleWatch.seen polls =
      ((polls.filterMap focus).map Focus.title).map fun t => (t, t) := by
    rw [Sensor.Watch.seen, List.map_map, List.map_filterMap]
    refine List.filterMap_congr fun i _ => ?_
    show ((focus i).map Focus.title).map (fun k => (k, (focus i).bind Focus.title)) = _
    cases focus i <;> rfl
  have hlast : h.titleWatch.last s = some none := congrArg some hs
  have hchanges := changes_map (fun t : Option String => t) none
    ((polls.filterMap focus).map Focus.title)
  rw [h.titleWatch.reports_eq, hlast, hseen]
  rw [List.map_id''] at hchanges
  · rw [← hchanges, List.reduceOption_cons_of_none]
  · exact fun _ => rfl

/-- A title that the last poll has shown is the last one told. -/
theorem Follows.title_current (h : Follows S id window title focus) (hs : title s = none)
    {polls : List ι} {t : String}
    (hlast : ((polls.filterMap focus).map Focus.title).getLast? = some (some t)) :
    ((S.run s polls).2.filterMap titleOf).getLast? = some t := by
  have hsees : polls.filterMap h.titleWatch.sees = (polls.filterMap focus).map Focus.title := by
    rw [List.map_filterMap]
    rfl
  -- nothing is told before the first poll
  rw [← List.nil_append ((S.run s polls).2.filterMap titleOf)]
  refine h.titleWatch.last_report (fun t => t) ?_ polls ?_ (some t) t ?_ rfl
  · intro i k hk
    show (focus i).bind Focus.title = k
    rcases Option.map_eq_some_iff.1 hk with ⟨f, hf, rfl⟩
    rw [hf]
    rfl
  · intro k a hk ha
    rw [← Option.some.inj (hk : some (title s) = some k), hs] at ha
    cases ha
  · rw [h.titleWatch.last_eq, hsees, hlast]
    rfl

/-- Nothing else is told. -/
theorem Follows.nothing_else (h : Follows S id window title focus) (polls : List ι) :
    ∀ signal ∈ (S.run s polls).2, (∃ app, signal = ⟨id, .appFocusChange app⟩) ∨
      ∃ t, signal = ⟨id, .windowTitle t⟩ := by
  induction polls generalizing s with
  | nil => simp [Sensor.run]
  | cons i polls ih =>
      intro signal hsignal
      rcases List.mem_append.1 hsignal with hsignal | hsignal
      · cases hfocus : focus i with
        | none =>
            rw [(h.unfocused s i hfocus).2.2] at hsignal
            cases hsignal
        | some f =>
            rw [(h.focused s i f hfocus).2.2] at hsignal
            rcases List.mem_append.1 hsignal with hsignal | hsignal
            · split at hsignal
              · cases hsignal
              · cases happ : f.app with
                | none => simp [happ] at hsignal
                | some app => exact Or.inl ⟨app, by simpa [happ] using hsignal⟩
            · split at hsignal
              · cases hsignal
              · cases ht : f.title with
                | none => simp [ht] at hsignal
                | some t => exact Or.inr ⟨t, by simpa [ht] using hsignal⟩
      · exact ih signal hsignal

end Follows

/-! ## The sources of the platforms -/

/-- The focused window, if every question about it is answered. -/
def Linux.FocusAnswers.focus (answers : Linux.FocusAnswers) : Option (Focus Nat) :=
  match answers.getInputFocus with
  | .error _ => none
  | .ok window =>
      if window ≤ 1 then none
      else
        match Linux.ActiveWindowSource.wmClass answers window,
          Linux.ActiveWindowSource.windowTitle answers window with
        | .ok class_, .ok title => some { window := window, app := class_, title := title }
        | _, _ => none

/-- A window is known by its owner. -/
def MacOs.focus (windows : Option (List MacOs.WindowInfo)) : Option (Focus String) :=
  (windows.bind MacOs.ActiveWindowSource.frontmostWindow).map fun p =>
    { window := p.1, app := some p.1, title := p.2 }

def Windows.ForegroundAnswers.focus (answers : Windows.ForegroundAnswers) : Option (Focus Int) :=
  let hwnd := answers.getForegroundWindow
  if hwnd = 0 then none
  else
    some
      { window := hwnd
        app := Windows.ActiveWindowSource.owningProcessPath answers hwnd
        title := Windows.ActiveWindowSource.windowTitle answers hwnd }

/-- What a source reports over any polls, answered in any way. -/
structure ReportsFocus {σ ι κ : Type} [DecidableEq κ] (S : Sensor σ ι CapturedSignal) (s : σ)
    (id : String) (focus : ι → Option (Focus κ)) : Prop where
  /-- An application for every move of the focus, if it can be told. -/
  apps : ∀ polls, (S.run s polls).2.filterMap appOf =
    ((polls.filterMap focus).destutter fun f g => f.window ≠ g.window).filterMap Focus.app
  /-- The titles seen, without immediate repetitions. -/
  titles : ∀ polls, (S.run s polls).2.filterMap titleOf =
    ((none :: (polls.filterMap focus).map Focus.title).destutter (· ≠ ·)).reduceOption
  /-- The title on the screen is the last one reported. -/
  current : ∀ polls t, ((polls.filterMap focus).map Focus.title).getLast? = some (some t) →
    ((S.run s polls).2.filterMap titleOf).getLast? = some t
  nothingElse : ∀ polls, ∀ signal ∈ (S.run s polls).2,
    (∃ app, signal = ⟨id, .appFocusChange app⟩) ∨ ∃ t, signal = ⟨id, .windowTitle t⟩

theorem Follows.reports {σ ι κ : Type} [DecidableEq κ] {S : Sensor σ ι CapturedSignal}
    {id : String} {window : σ → Option κ} {title : σ → Option String}
    {focus : ι → Option (Focus κ)} {s : σ} (h : Follows S id window title focus)
    (hwindow : window s = none) (htitle : title s = none) : ReportsFocus S s id focus where
  apps := h.apps_eq hwindow
  titles := h.titles_eq htitle
  current := fun _ _ => h.title_current htitle
  nothingElse := h.nothing_else

end Observation
end HiddenSteps

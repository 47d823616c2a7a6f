import JuliusOS.Foundations.Machine
import JuliusOS.Foundations.Pipe
import JuliusOS.Foundations.Utf8
import Mathlib.Logic.Function.Basic

/-!
# The clipboards of several devices

`src/apps/clipboard/clipboard.py` on any number of devices. A device that listens takes one
connection, reads it to its end and keeps the text; a device that pushes connects, sends a text and
closes. Every thread stops anywhere, and what the network does (who is reached at an address, how
the bytes are cut into pieces, what raises) is an input, as is a device that is switched off and
comes back.

* `content_of_run`: what a device has is a text that was pushed to it, or a prefix of it if the push
  was cut off, however the threads and the pushes of several devices interleave.
* `content_of_keys`: with the keys of `handle_input` only one text ever travels. Nothing but a
  received text is pushed, and where there is none the greeting.
-/

namespace JuliusOS.Apps

namespace Clipboard

/-- What is pushed where there is no content. -/
def greeting : List Char := "Hello from Julius OS".toList

/-- The address that is pushed to. -/
def pushAddress : List Char := "192.168.1.100".toList

/-- Where a thread of `serve` or of `send` stands. -/
inductive Thread
  /-- `serve` before `bind`. -/
  | binding
  /-- `serve` in `accept`. -/
  | accepting
  /-- `serve` in the loop of `recv`. -/
  | receiving (i : ℕ)
  /-- `serve` before its last line of the log. -/
  | received
  /-- `send` in `connect`. -/
  | connecting (ip text : List Char)
  /-- `send` in `sendall`. -/
  | sending (ip : List Char) (i : ℕ)
  /-- `send` before its last line of the log. -/
  | sent (ip : List Char)
  | ended
deriving DecidableEq

/-- What happens to a thread. -/
inductive Act (δ : Type*)
  /-- `bind` and `listen` return. -/
  | bound
  /-- `accept` returns a connection. -/
  | accept (i : ℕ)
  /-- `recv` returns some bytes. -/
  | recv (n : ℕ)
  /-- `recv` returns none. -/
  | eof
  /-- A call of `serve` raises. -/
  | raise
  /-- A line is appended to the log. -/
  | log
  /-- `connect` reaches a device. -/
  | connect (d : δ)
  /-- The kernel takes some of the bytes of `sendall`. -/
  | send (n : ℕ)
  /-- `sendall` has returned, and the socket is closed. -/
  | close
  /-- A call of `send` raises an exception with a text. -/
  | fail (message : List Char)

end Clipboard

/-- The app. -/
structure Clipboard where
  content : List Char
  log : List (List Char)

namespace Clipboard

/-- The app at its start. -/
def init : Clipboard := ⟨[], ["Julius Clipboard Sync".toList]⟩

/-- `self.log.append`. -/
def append (line : List Char) (c : Clipboard) : Clipboard := { c with log := c.log ++ [line] }

/-- `self.content or "Hello from Julius OS"`. -/
def shared (c : Clipboard) : List Char := if c.content = [] then greeting else c.content

/-- A connection. -/
structure Link (δ : Type*) where
  /-- The device that pushes. -/
  source : δ
  /-- The device that is reached. -/
  target : δ
  /-- What is pushed. -/
  text : List Char
  /-- Some `accept` has returned it. -/
  accepted : Bool
  /-- What is on its way; `received` is what `data` has become. -/
  pipe : Pipe UInt8

/-- `accept` returns the connection. -/
def Link.accept {δ : Type*} (l : Link δ) : Link δ := { l with accepted := true }

/-- The bytes of a connection are moved. -/
def Link.onPipe {δ : Type*} (f : Pipe UInt8 → Pipe UInt8) (l : Link δ) : Link δ :=
  { l with pipe := f l.pipe }

/-- The devices, their threads and the connections between them. -/
structure Net (δ : Type*) where
  devices : δ → Clipboard
  threads : List (δ × Thread)
  links : List (Link δ)

/-- What happens next. -/
inductive Label (δ : Type*)
  /-- `listen` is called. -/
  | listen (d : δ)
  /-- `push` is called. -/
  | push (d : δ) (ip text : List Char)
  /-- A device is switched off and starts again. -/
  | restart (d : δ)
  /-- Something happens to a thread. -/
  | thread (k : ℕ) (a : Act δ)

namespace Net

variable {δ : Type*}

/-- The devices at their start. -/
def start : Net δ := ⟨fun _ ↦ init, [], []⟩

/-- A thread goes on. -/
def goto (k : ℕ) (d : δ) (p : Thread) (s : Net δ) : Net δ :=
  { s with threads := s.threads.set k (d, p) }

/-- A thread is started. -/
def spawn (d : δ) (p : Thread) (s : Net δ) : Net δ := { s with threads := s.threads ++ [(d, p)] }

/-- A connection is changed. -/
def setLink (i : ℕ) (f : Link δ → Link δ) (s : Net δ) : Net δ :=
  { s with links := s.links.modify i f }

/-- A connection is made. -/
def connect (source target : δ) (text : List Char) (s : Net δ) : Net δ :=
  { s with links := s.links ++ [⟨source, target, text, false, Pipe.ofList (Utf8.encode text)⟩] }

variable [DecidableEq δ]

/-- The app of a device is changed. -/
def update (d : δ) (f : Clipboard → Clipboard) (s : Net δ) : Net δ :=
  { s with devices := Function.update s.devices d (f (s.devices d)) }

/-- What the end of a connection comes to: its bytes are decoded, or `decode` raises. -/
def finish (k : ℕ) (d : δ) (l : Link δ) (s : Net δ) : Net δ :=
  match Utf8.decodeStrict l.pipe.received with
  | some text => (s.update d fun c ↦ { c with content := text }).goto k d .received
  | none => s.goto k d .ended

/-- A step of `serve`. -/
def serve (k : ℕ) (d : δ) (s : Net δ) : Thread → Act δ → Option (Net δ)
  | .binding, .bound =>
    some ((s.update d (append "Waiting for clipboard...".toList)).goto k d .accepting)
  | .accepting, .accept i =>
    (s.links[i]?).bind fun l ↦
      if l.target = d ∧ l.accepted = false then
        some ((s.setLink i Link.accept).goto k d (.receiving i))
      else none
  | .receiving i, .recv n =>
    (s.links[i]?).bind fun l ↦
      if 0 < n ∧ n ≤ 4096 ∧ n ≤ l.pipe.unread.length then
        some (s.setLink i (Link.onPipe (Pipe.recv n)))
      else none
  | .receiving i, .eof =>
    (s.links[i]?).bind fun l ↦
      if l.pipe.Ended then some (s.finish k d l) else none
  | .received, .log =>
    some ((s.update d fun c ↦ c.append ("Received: ".toList ++ c.content.take 30)).goto k d .ended)
  | .binding, .raise | .accepting, .raise | .receiving _, .raise => some (s.goto k d .ended)
  | _, _ => none

/-- A step of `send`. -/
def send (k : ℕ) (d : δ) (s : Net δ) : Thread → Act δ → Option (Net δ)
  | .connecting ip text, .connect e =>
    some ((s.connect d e text).goto k d (.sending ip s.links.length))
  | .sending _ i, .send n => some (s.setLink i (Link.onPipe (Pipe.send n)))
  | .sending ip i, .close =>
    (s.links[i]?).bind fun l ↦
      if l.pipe.unsent = [] then
        some ((s.setLink i (Link.onPipe Pipe.close)).goto k d (.sent ip))
      else none
  | .sent ip, .log => some ((s.update d (append ("Pushed to ".toList ++ ip))).goto k d .ended)
  | .connecting _ _, .fail message =>
    some ((s.update d (append ("Error: ".toList ++ message))).goto k d .ended)
  | .sending _ i, .fail message =>
    some (((s.setLink i (Link.onPipe Pipe.close)).update d
      (append ("Error: ".toList ++ message))).goto k d .ended)
  | _, _ => none

/-- A device is switched off: its threads are gone, and what it was sending ends there. -/
def restart (d : δ) (s : Net δ) : Net δ where
  devices := Function.update s.devices d init
  threads := s.threads.map fun x ↦ if x.1 = d then (x.1, .ended) else x
  links := s.links.map fun l ↦ if l.source = d then l.onPipe Pipe.close else l

/-- One step. -/
def step (s : Net δ) : Label δ → Option (Net δ)
  | .listen d => some (s.spawn d .binding)
  | .push d ip text => some (s.spawn d (.connecting ip text))
  | .restart d => some (s.restart d)
  | .thread k a =>
    (s.threads[k]?).bind fun x ↦ (s.serve k x.1 x.2 a).or (s.send k x.1 x.2 a)

end Net

open Net

/-- The devices as a machine. -/
def clipboards (δ : Type*) [DecidableEq δ] : Machine (Net δ) (Label δ) where
  Init s := s = start
  step := Net.step

variable {δ : Type*} {s t : Net δ} {Pushed : δ → List Char → Prop}
  {first : List (Link δ)}

/-! ### Connections -/

/-- What a connection may become. -/
structure Link.Later (l l' : Link δ) : Prop where
  source : l'.source = l.source
  target : l'.target = l.target
  text : l'.text = l.text
  carries : ∀ whole, l.pipe.Carries whole → l'.pipe.Carries whole
  cut : l'.pipe.cut = false → l.pipe.cut = false

theorem Link.later_refl (l : Link δ) : l.Later l := ⟨rfl, rfl, rfl, fun _ h ↦ h, fun h ↦ h⟩

theorem Link.Later.trans {l l' l'' : Link δ} (h : l.Later l') (h' : l'.Later l'') :
    l.Later l'' where
  source := h'.source.trans h.source
  target := h'.target.trans h.target
  text := h'.text.trans h.text
  carries whole hcarries := h'.carries whole (h.carries whole hcarries)
  cut hcut := h.cut (h'.cut hcut)

theorem Link.later_accept (l : Link δ) : l.Later l.accept := ⟨rfl, rfl, rfl, fun _ h ↦ h, fun h ↦ h⟩

theorem Link.later_recv (n : ℕ) (l : Link δ) : l.Later (l.onPipe (Pipe.recv n)) :=
  ⟨rfl, rfl, rfl, fun _ h ↦ h.recv n, fun h ↦ h⟩

theorem Link.later_send (n : ℕ) (l : Link δ) : l.Later (l.onPipe (Pipe.send n)) :=
  ⟨rfl, rfl, rfl, fun _ h ↦ h.send n, fun h ↦ h⟩

theorem Link.later_close (l : Link δ) : l.Later (l.onPipe Pipe.close) :=
  ⟨rfl, rfl, rfl, fun _ h ↦ h.close, fun h ↦ (Bool.or_eq_false_iff.1 h).1⟩

/-! ### The invariant -/

/-- What holds in every run, where `Pushed` holds for the texts that devices push: a thread that
connects pushes such a text, a thread that reads reads from a connection to its device, every
connection carries its text, what a device has has come over a connection to it, and the `first`
connections are still there. -/
structure Inv (Pushed : δ → List Char → Prop) (first : List (Link δ)) (s : Net δ) : Prop where
  pushes : ∀ d ip text, (d, Thread.connecting ip text) ∈ s.threads → Pushed d text
  reads : ∀ d i, (d, Thread.receiving i) ∈ s.threads → ∃ l, s.links[i]? = some l ∧ l.target = d
  links : ∀ l ∈ s.links, Pushed l.source l.text ∧ l.pipe.Carries (Utf8.encode l.text)
  content : ∀ d, (s.devices d).content = [] ∨ ∃ l ∈ s.links, l.target = d ∧
    (s.devices d).content <+: l.text ∧ (l.pipe.cut = false → (s.devices d).content = l.text)
  later : ∀ (i : ℕ) (l : Link δ), first[i]? = some l → ∃ l', s.links[i]? = some l' ∧ l.Later l'

namespace Inv

theorem start : Inv Pushed [] (Net.start : Net δ) where
  pushes _ _ _ h := absurd h List.not_mem_nil
  reads _ _ h := absurd h List.not_mem_nil
  links _ h := absurd h List.not_mem_nil
  content _ := Or.inl rfl
  later _ _ h := by cases h

theorem mono {Pushed' : δ → List Char → Prop} (h : Inv Pushed first s)
    (himp : ∀ d text, Pushed d text → Pushed' d text) : Inv Pushed' first s where
  pushes d ip text hmem := himp _ _ (h.pushes d ip text hmem)
  reads := h.reads
  links l hl := ⟨himp _ _ (h.links l hl).1, (h.links l hl).2⟩
  content := h.content
  later := h.later

/-- The connections are those that are there now. -/
theorem rebase (h : Inv Pushed first s) : Inv Pushed s.links s :=
  { h with later := fun _ l hl ↦ ⟨l, hl, l.later_refl⟩ }

/-- What a thread may be about to do. -/
structure Allowed (Pushed : δ → List Char → Prop) (s : Net δ) (d : δ) (p : Thread) : Prop where
  pushes : ∀ ip text, p = .connecting ip text → Pushed d text
  reads : ∀ i, p = .receiving i → ∃ l, s.links[i]? = some l ∧ l.target = d

/-- The threads are changed. -/
theorem of_threads (h : Inv Pushed first s) {threads : List (δ × Thread)}
    (hthreads : ∀ x ∈ threads, x ∈ s.threads ∨ Allowed Pushed s x.1 x.2) :
    Inv Pushed first { s with threads := threads } where
  pushes d ip text hmem := by
    rcases hthreads _ hmem with hold | hnew
    · exact h.pushes d ip text hold
    · exact hnew.pushes ip text rfl
  reads d i hmem := by
    rcases hthreads _ hmem with hold | hnew
    · exact h.reads d i hold
    · exact hnew.reads i rfl
  links := h.links
  content := h.content
  later := h.later

theorem goto (h : Inv Pushed first s) (k : ℕ) {d : δ} {p : Thread} (hp : Allowed Pushed s d p) :
    Inv Pushed first (s.goto k d p) :=
  h.of_threads fun x hx ↦ by
    rcases List.mem_or_eq_of_mem_set hx with hold | rfl
    · exact Or.inl hold
    · exact Or.inr hp

theorem spawn (h : Inv Pushed first s) {d : δ} {p : Thread} (hp : Allowed Pushed s d p) :
    Inv Pushed first (s.spawn d p) :=
  h.of_threads fun x hx ↦ by
    rcases List.mem_append.1 hx with hold | hnew
    · exact Or.inl hold
    · obtain rfl := List.mem_singleton.1 hnew
      exact Or.inr hp

/-- The apps are changed. -/
theorem of_devices (h : Inv Pushed first s) {devices : δ → Clipboard}
    (hdevices : ∀ d, (devices d).content = (s.devices d).content ∨ (devices d).content = [] ∨
      ∃ l ∈ s.links, l.target = d ∧ (devices d).content <+: l.text ∧
        (l.pipe.cut = false → (devices d).content = l.text)) :
    Inv Pushed first { s with devices := devices } where
  pushes := h.pushes
  reads := h.reads
  links := h.links
  content d := by
    rcases hdevices d with heq | hnew
    · show (devices d).content = [] ∨ _
      rw [heq]
      exact h.content d
    · exact hnew
  later := h.later

theorem update [DecidableEq δ] (h : Inv Pushed first s) {d : δ} {f : Clipboard → Clipboard}
    (hf : (f (s.devices d)).content = (s.devices d).content) : Inv Pushed first (s.update d f) :=
  h.of_devices fun e ↦ by
    left
    by_cases he : e = d
    · rw [he, Function.update_self, hf]
    · rw [Function.update_of_ne he]

/-- The connections go on. -/
theorem of_links (h : Inv Pushed first s) {links : List (Link δ)} {g : ℕ → Link δ → Link δ}
    (hg : ∀ i (l : Link δ), l.Later (g i l)) (hlinks : ∀ i, links[i]? = (s.links[i]?).map (g i)) :
    Inv Pushed first { s with links := links } where
  pushes := h.pushes
  reads d i hmem := by
    obtain ⟨l, hl, rfl⟩ := h.reads d i hmem
    exact ⟨g i l, by rw [hlinks, hl, Option.map_some], (hg i l).target⟩
  links l' hl' := by
    obtain ⟨i, hi⟩ := List.mem_iff_getElem?.1 hl'
    rw [hlinks] at hi
    obtain ⟨l, hl, rfl⟩ := Option.map_eq_some_iff.1 hi
    have hlater := hg i l
    obtain ⟨hpushed, hcarries⟩ := h.links l (List.mem_of_getElem? hl)
    rw [hlater.source, hlater.text]
    exact ⟨hpushed, hlater.carries _ hcarries⟩
  content d := by
    rcases h.content d with hnil | ⟨l, hl, rfl, hpre, hall⟩
    · exact Or.inl hnil
    · obtain ⟨i, hi⟩ := List.mem_iff_getElem?.1 hl
      have hlater := hg i l
      have hmem : g i l ∈ links :=
        List.mem_of_getElem? (i := i) (by rw [hlinks, hi, Option.map_some])
      refine Or.inr ⟨g i l, hmem, hlater.target, ?_, fun hcut ↦ ?_⟩
      · rw [hlater.text]
        exact hpre
      · rw [hlater.text]
        exact hall (hlater.cut hcut)
  later i l hl := by
    obtain ⟨l', hl', hlater⟩ := h.later i l hl
    exact ⟨g i l', by rw [hlinks, hl', Option.map_some], hlater.trans (hg i l')⟩

theorem setLink (h : Inv Pushed first s) (i : ℕ) {f : Link δ → Link δ}
    (hf : ∀ l : Link δ, l.Later (f l)) :
    Inv Pushed first (s.setLink i f) := by
  refine h.of_links (g := fun j l ↦ if i = j then f l else l) (fun j l ↦ ?_) fun j ↦ ?_
  · show l.Later (if i = j then f l else l)
    split
    case isTrue => exact hf l
    case isFalse => exact l.later_refl
  · rw [List.getElem?_modify]
    rfl

/-- A connection is made. -/
theorem connect (h : Inv Pushed first s) {d : δ} {text : List Char} (htext : Pushed d text)
    (e : δ) :
    Inv Pushed first (s.connect d e text) where
  pushes := h.pushes
  reads d' i hmem := by
    obtain ⟨l, hl, htarget⟩ := h.reads d' i hmem
    obtain ⟨hlt, -⟩ := List.getElem?_eq_some_iff.1 hl
    exact ⟨l, (List.getElem?_append_left hlt).trans hl, htarget⟩
  links l hl := by
    rcases List.mem_append.1 hl with hold | hnew
    · exact h.links l hold
    · obtain rfl := List.mem_singleton.1 hnew
      exact ⟨htext, Pipe.carries_ofList _⟩
  content d' := by
    rcases h.content d' with hnil | ⟨l, hl, hcontent⟩
    · exact Or.inl hnil
    · exact Or.inr ⟨l, List.mem_append_left _ hl, hcontent⟩
  later i l hl := by
    obtain ⟨l', hl', hlater⟩ := h.later i l hl
    obtain ⟨hlt, -⟩ := List.getElem?_eq_some_iff.1 hl'
    exact ⟨l', (List.getElem?_append_left hlt).trans hl', hlater⟩

end Inv

/-! ### Only the greeting -/

/-- No push has been cut off. -/
def NoCut (s : Net δ) : Prop := ∀ l ∈ s.links, l.pipe.cut = false

/-- The texts that are pushed with the keys. -/
def OnlyGreeting (s : Net δ) (text : List Char) : Prop :=
  text <+: greeting ∧ (NoCut s → text = greeting)

theorem onlyGreeting_shared (h : Inv (fun _ ↦ OnlyGreeting s) first s) (d : δ) :
    OnlyGreeting s (s.devices d).shared := by
  rw [shared]
  rcases h.content d with hnil | ⟨l, hl, -, hpre, hall⟩
  · rw [if_pos hnil]
    exact ⟨List.prefix_rfl, fun _ ↦ rfl⟩
  · split
    case isTrue => exact ⟨List.prefix_rfl, fun _ ↦ rfl⟩
    case isFalse =>
      obtain ⟨hgreeting, heq⟩ := (h.links l hl).1
      exact ⟨hpre.trans hgreeting, fun hcut ↦ (hall (hcut l hl)).trans (heq hcut)⟩

/-! ### Steps -/

/-- A step that is enabled on some connections. -/
theorem exists_of_bind_links {i : ℕ} {P : Link δ → Prop} [DecidablePred P] {f : Link δ → Net δ}
    (h : ((s.links[i]?).bind fun l ↦ if P l then some (f l) else none) = some t) :
    ∃ l, s.links[i]? = some l ∧ P l ∧ f l = t := by
  obtain ⟨l, hl, hif⟩ := Option.bind_eq_some_iff.1 h
  split at hif
  case isTrue hP => exact ⟨l, hl, hP, Option.some.inj hif⟩
  case isFalse => cases hif

/-- The thread neither pushes a text nor reads from a connection. -/
def Thread.idle : Thread → Bool
  | .connecting _ _ | .receiving _ => false
  | _ => true

theorem allowed_of_idle {p : Thread} (hp : p.idle = true) (d : δ) : Inv.Allowed Pushed s d p where
  pushes ip text h := by
    rw [h] at hp
    cases hp
  reads i h := by
    rw [h] at hp
    cases hp

variable [DecidableEq δ]

/-- **What has come in is what was pushed**, or a prefix of it if the push was cut off. -/
theorem Inv.finish (h : Inv Pushed first s) (k : ℕ) {d : δ} {l : Link δ} (hl : l ∈ s.links)
    (htarget : l.target = d) (hend : l.pipe.Ended) : Inv Pushed first (s.finish k d l) := by
  rw [Net.finish]
  cases hdecode : Utf8.decodeStrict l.pipe.received with
  | none => exact h.goto k (allowed_of_idle rfl d)
  | some text =>
    obtain ⟨hpre, hall⟩ := (h.links l hl).2.received_of_ended hend
    rw [← Utf8.decodeStrict_eq_some_iff.1 hdecode] at hpre hall
    obtain ⟨rest, hrest⟩ := hpre
    obtain ⟨more, htext, hmore⟩ := Utf8.exists_of_encode_eq_append hrest.symm
    have hcontent : Inv Pushed first (s.update d fun c ↦ { c with content := text }) := by
      refine h.of_devices fun e ↦ ?_
      by_cases he : e = d
      · rw [he, Function.update_self]
        refine Or.inr (Or.inr ⟨l, hl, htarget, ⟨more, htext.symm⟩, fun hcut ↦ ?_⟩)
        have hdecode' := Utf8.decodeStrict_encode l.text
        rw [← hall hcut, Utf8.decodeStrict_encode] at hdecode'
        exact Option.some.inj hdecode'
      · rw [Function.update_of_ne he]
        exact Or.inl rfl
    exact hcontent.goto k (allowed_of_idle rfl d)

theorem Inv.restart (h : Inv Pushed first s) (d : δ) : Inv Pushed first (s.restart d) := by
  have hlinks : Inv Pushed first
      { s with links := s.links.map fun l ↦ if l.source = d then l.onPipe Pipe.close else l } := by
    refine h.of_links (g := fun _ l ↦ if l.source = d then l.onPipe Pipe.close else l)
      (fun _ l ↦ ?_) fun i ↦ List.getElem?_map
    show l.Later (if l.source = d then l.onPipe Pipe.close else l)
    split
    case isTrue => exact l.later_close
    case isFalse => exact l.later_refl
  have hcontent (e : δ) : (Function.update s.devices d init e).content = (s.devices e).content ∨
      (Function.update s.devices d init e).content = [] := by
    by_cases he : e = d
    · rw [he, Function.update_self]
      exact Or.inr rfl
    · rw [Function.update_of_ne he]
      exact Or.inl rfl
  have hdevices := hlinks.of_devices fun e ↦ (hcontent e).imp_right Or.inl
  refine hdevices.of_threads fun x hx ↦ ?_
  obtain ⟨y, hy, rfl⟩ := List.mem_map.1 hx
  split
  case isTrue => exact Or.inr (allowed_of_idle rfl _)
  case isFalse => exact Or.inl hy

/-- **What a step of `serve` keeps.** -/
theorem Inv.serve (h : Inv Pushed first s) {k : ℕ} {d : δ} {p : Thread} (hp : (d, p) ∈ s.threads)
    {a : Act δ} (hstep : s.serve k d p a = some t) : Inv Pushed first t := by
  rw [Net.serve.eq_def] at hstep
  split at hstep
  · -- `bind` and `listen` return
    obtain rfl := Option.some.inj hstep
    exact (h.update rfl).goto k (allowed_of_idle rfl d)
  · -- `accept` returns the connection `i`
    next i =>
    obtain ⟨l, hl, ⟨htarget, -⟩, rfl⟩ := exists_of_bind_links hstep
    refine (h.setLink i Link.later_accept).goto k ⟨fun _ _ hp ↦ (by cases hp), fun j hj ↦ ?_⟩
    obtain rfl : i = j := Thread.receiving.inj hj
    refine ⟨l.accept, ?_, htarget⟩
    show (s.links.modify i Link.accept)[i]? = some l.accept
    rw [List.getElem?_modify_eq, hl]
    rfl
  · -- `recv` returns some bytes
    next i n =>
    obtain ⟨l, -, -, rfl⟩ := exists_of_bind_links hstep
    exact h.setLink i (Link.later_recv n)
  · -- `recv` returns none
    next i =>
    obtain ⟨l, hl, hend, rfl⟩ := exists_of_bind_links hstep
    obtain ⟨l', hl', htarget⟩ := h.reads d i hp
    obtain rfl : l = l' := Option.some.inj (hl.symm.trans hl')
    exact h.finish k (List.mem_of_getElem? hl) htarget hend
  · -- the last line of the log
    obtain rfl := Option.some.inj hstep
    exact (h.update rfl).goto k (allowed_of_idle rfl d)
  · -- an exception
    obtain rfl := Option.some.inj hstep
    exact h.goto k (allowed_of_idle rfl d)
  · obtain rfl := Option.some.inj hstep
    exact h.goto k (allowed_of_idle rfl d)
  · obtain rfl := Option.some.inj hstep
    exact h.goto k (allowed_of_idle rfl d)
  · cases hstep

/-- **What a step of `send` keeps.** -/
theorem Inv.send (h : Inv Pushed first s) {k : ℕ} {d : δ} {p : Thread} (hp : (d, p) ∈ s.threads)
    {a : Act δ} (hstep : s.send k d p a = some t) : Inv Pushed first t := by
  rw [Net.send.eq_def] at hstep
  split at hstep
  · -- `connect` reaches a device
    next ip text e =>
    obtain rfl := Option.some.inj hstep
    exact (h.connect (h.pushes d ip text hp) e).goto k (allowed_of_idle rfl d)
  · -- some bytes are taken
    next ip i n =>
    obtain rfl := Option.some.inj hstep
    exact h.setLink i (Link.later_send n)
  · -- the socket is closed
    next ip i =>
    obtain ⟨l, -, -, rfl⟩ := exists_of_bind_links hstep
    exact (h.setLink i Link.later_close).goto k (allowed_of_idle rfl d)
  · -- the last line of the log
    obtain rfl := Option.some.inj hstep
    exact (h.update rfl).goto k (allowed_of_idle rfl d)
  · -- `connect` raises
    obtain rfl := Option.some.inj hstep
    exact (h.update rfl).goto k (allowed_of_idle rfl d)
  · -- `sendall` raises
    next ip i message =>
    obtain rfl := Option.some.inj hstep
    exact ((h.setLink i Link.later_close).update rfl).goto k (allowed_of_idle rfl d)
  · cases hstep

/-- **What a step keeps**, if a text that is pushed is one of those that may be. -/
theorem Inv.step (h : Inv Pushed first s) {l : Label δ}
    (hpush : ∀ d ip text, l = .push d ip text → Pushed d text)
    (hstep : (clipboards δ).step s l = some t) : Inv Pushed first t := by
  cases l with
  | listen d =>
    obtain rfl := Option.some.inj hstep
    exact h.spawn (allowed_of_idle rfl d)
  | push d ip text =>
    obtain rfl := Option.some.inj hstep
    refine h.spawn ⟨fun ip' text' heq ↦ ?_, fun _ heq ↦ (by cases heq)⟩
    obtain ⟨-, rfl⟩ := Thread.connecting.inj heq
    exact hpush d ip text rfl
  | restart d =>
    obtain rfl := Option.some.inj hstep
    exact h.restart d
  | thread k a =>
    obtain ⟨⟨d, p⟩, hp, hor⟩ := Option.bind_eq_some_iff.1 hstep
    have hmem := List.mem_of_getElem? hp
    rcases Option.or_eq_some_iff.1 hor with hserve | ⟨-, hsend⟩
    · exact h.serve hmem hserve
    · exact h.send hmem hsend

/-! ### Runs -/

/-- **What a device has was pushed to it.** After any run the content of a device is empty, or it
has come over a connection to it from a device that pushed a text. It is that text, or a prefix of
it if the push was cut off: no two pushes are ever mixed. -/
theorem content_of_run {ls : List (Label δ)} (hrun : (clipboards δ).run start ls = some t) (d : δ) :
    (t.devices d).content = [] ∨ ∃ l ∈ t.links, l.target = d ∧
      (∃ ip, Label.push l.source ip l.text ∈ ls) ∧ (t.devices d).content <+: l.text ∧
      (l.pipe.cut = false → (t.devices d).content = l.text) := by
  have h : Inv (fun e text ↦ ∃ ip, Label.push e ip text ∈ ls) [] t := by
    refine Machine.invariant_of_history
      (I := fun hist ↦ Inv (fun e text ↦ ∃ ip, Label.push e ip text ∈ hist) []) ?_ Inv.start hrun
    intro hist s l s' hs hstep
    have hmono : Inv (fun e text ↦ ∃ ip, Label.push e ip text ∈ hist ++ [l]) [] s :=
      hs.mono fun e text hpushed ↦ hpushed.imp fun ip hmem ↦ List.mem_append_left _ hmem
    refine hmono.step ?_ hstep
    rintro e ip text rfl
    exact ⟨ip, List.mem_append_right _ (List.mem_singleton_self _)⟩
  rcases h.content d with hnil | ⟨l, hl, htarget, hpre, hall⟩
  · exact Or.inl hnil
  · exact Or.inr ⟨l, hl, htarget, (h.links l hl).1, hpre, hall⟩

/-- `push` is called as `handle_input` calls it. -/
def FromKeys (s : Net δ) : Label δ → Prop
  | .push d ip text => ip = pushAddress ∧ text = (s.devices d).shared
  | _ => True

instance : ∀ (s : Net δ) (l : Label δ), Decidable (FromKeys s l)
  | _, .push _ _ _ => inferInstanceAs (Decidable (_ ∧ _))
  | _, .listen _ | _, .restart _ | _, .thread _ _ => inferInstanceAs (Decidable True)

/-- What was cut off stays cut off. -/
theorem noCut_of_step {l : Label δ} (hs : Inv Pushed first s)
    (hpush : ∀ d ip text, l = .push d ip text → Pushed d text)
    (hstep : (clipboards δ).step s l = some t) (ht : NoCut t) : NoCut s := by
  intro x hx
  obtain ⟨i, hi⟩ := List.mem_iff_getElem?.1 hx
  obtain ⟨x', hx', hlater⟩ := (hs.rebase.step hpush hstep).later i x hi
  exact hlater.cut (ht x' (List.mem_of_getElem? hx'))

/-- **With the keys only the greeting travels.** On devices whose users press keys, in any run, what
a device has is a prefix of the greeting; and as long as no push is cut off, it is nothing or the
greeting. -/
theorem content_of_keys {ls : List (Label δ)} (hkeys : (clipboards δ).Guarded FromKeys start ls)
    (hrun : (clipboards δ).run start ls = some t) (d : δ) :
    (t.devices d).content <+: greeting ∧
      (NoCut t → (t.devices d).content = [] ∨ (t.devices d).content = greeting) := by
  have h : Inv (fun _ ↦ OnlyGreeting t) [] t := by
    refine Machine.invariant_of_guarded (I := fun u ↦ Inv (fun _ ↦ OnlyGreeting u) [] u) ?_
      Inv.start hkeys hrun
    intro s l s' hs hok hstep
    have hpush : ∀ e ip text, l = .push e ip text → OnlyGreeting s text := by
      rintro e ip text rfl
      obtain ⟨-, rfl⟩ := hok
      exact onlyGreeting_shared hs e
    have hcut := noCut_of_step hs hpush hstep
    have hgreeting : ∀ text, OnlyGreeting s text → OnlyGreeting s' text :=
      fun text htext ↦ ⟨htext.1, fun hs' ↦ htext.2 (hcut hs')⟩
    exact (hs.step hpush hstep).mono fun _ ↦ hgreeting
  rcases h.content d with hnil | ⟨l, hl, -, hpre, hall⟩
  · rw [hnil]
    exact ⟨List.nil_prefix, fun _ ↦ Or.inl rfl⟩
  · obtain ⟨hgreeting, heq⟩ := (h.links l hl).1
    exact ⟨hpre.trans hgreeting,
      fun hcut ↦ Or.inr ((hall (hcut l hl)).trans (heq hcut))⟩

/-- One device pushes to another. -/
def exchange : List (Label Bool) :=
  [.listen true, .thread 0 .bound, .push false pushAddress greeting, .thread 1 (.connect true),
    .thread 0 (.accept 0), .thread 1 (.send 20), .thread 0 (.recv 7), .thread 0 (.recv 13),
    .thread 1 .close, .thread 0 .eof, .thread 1 .log, .thread 0 .log]

theorem content_of_run_exchange :
    ∃ t, (clipboards Bool).run start exchange = some t ∧ (t.devices true).content = greeting ∧
      ((t.devices true).content = [] ∨ ∃ l ∈ t.links, l.target = true ∧
        (∃ ip, Label.push l.source ip l.text ∈ exchange) ∧ (t.devices true).content <+: l.text ∧
        (l.pipe.cut = false → (t.devices true).content = l.text)) :=
  ⟨_, rfl, rfl, content_of_run rfl true⟩

theorem content_of_keys_exchange :
    ∃ t, (clipboards Bool).run start exchange = some t ∧
      (t.devices true).content <+: greeting ∧
      (NoCut t → (t.devices true).content = [] ∨ (t.devices true).content = greeting) := by
  have hkeys : (clipboards Bool).Guarded FromKeys start exchange := by decide
  exact ⟨_, rfl, content_of_keys hkeys rfl true⟩

end Clipboard

end JuliusOS.Apps

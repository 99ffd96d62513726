import HassioInstaller.Mkimage.BootMenus

/-! # The ISO

`create_image_iso` makes the image of the merged sections. The boot loaders on it look for the
volume by its label, for their configuration, and for the kernels and images named there; each of
these names is made in another place. -/

namespace HassioInstaller.Mkimage
open Text

/-- The commands of `create_image_iso`. -/
inductive IsoTool
  | mformat (image : String)
  | mcopy (image dir : String)
  | touch (path : String)
  /-- `printf` to `$WORKDIR/parmfile` -/
  | parmfile (text : String)
  | mkS390Cdboot (kernel initrd out : String)
  | grubMkrescue (output dir volid : String)
  | xorrisofs (output volid : String) (options : List String) (dir : String)

/-- The volume id an image is given. -/
def IsoTool.volid : IsoTool → Option String
  | .grubMkrescue _ _ id | .xorrisofs _ id _ _ => some id
  | .mformat _ | .mcopy .. | .touch _ | .parmfile _ | .mkS390Cdboot .. => none

namespace Vars

variable (v : Vars)

def volid : String := orElse v.profileAbbrev v.PROFILE ++ " " ++ v.RELEASE ++ " " ++ v.ARCH

/-- `$_isolinux` -/
def isolinux (DESTDIR : String) : List String :=
  ["-isohybrid-mbr", DESTDIR ++ "/boot/syslinux/isohdpfx.bin", "-eltorito-boot",
    "boot/syslinux/isolinux.bin", "-eltorito-catalog", "boot/syslinux/boot.cat", "-no-emul-boot",
    "-boot-load-size", "4", "-boot-info-table"]

/-- `$_efiboot`, alone or beside `isolinux` -/
def efiboot (hybrid : Bool) : List String :=
  if hybrid then ["-eltorito-alt-boot", "-e", "boot/grub/efi.img", "-no-emul-boot",
    "-isohybrid-gpt-basdat"]
  else ["-efi-boot-part", "--efi-boot-image", "-e", "boot/grub/efi.img", "-no-emul-boot"]

/-- `create_image_iso`: `present` says which paths there are below `$DESTDIR`. -/
def createImageIso (ISO DESTDIR : String) (isoOpts : List String) (present : String → Bool) :
    List IsoTool :=
  let bios := present "boot/syslinux/isolinux.bin"
  let efi := present "efi" && present "boot/grub"
  let img := DESTDIR ++ "/boot/grub/efi.img"
  (if efi then [.mformat img, .mcopy img (DESTDIR ++ "/efi"), .touch img] else []) ++
  if v.ARCH = "ppc64le" then [.grubMkrescue ISO DESTDIR v.volid]
  else
    (if v.ARCH = "s390x" then
      .parmfile (v.initfsCmdline ++ " " ++ v.kernelCmdline ++ " ") :: v.kernelFlavors.map fun f =>
        .mkS390Cdboot (DESTDIR ++ "/boot/vmlinuz-" ++ f) (DESTDIR ++ "/boot/initramfs-" ++ f)
          (DESTDIR ++ "/boot/merged.img")
    else []) ++
    [.xorrisofs ISO v.volid
      ((if bios then isolinux DESTDIR else []) ++ (if efi then efiboot bios else []) ++
        ["-follow-links"] ++ isoOpts ++
        if v.ARCH = "s390x" then ["-no-emul-boot", "-eltorito-boot", "boot/merged.img"] else [])
      DESTDIR]

end Vars

/-! ## What the boot loaders look for -/

/-- The label `search` looks for. -/
def searchedLabel (lines : List String) : Option String :=
  lines.findSome? fun line =>
    match words line with
    | "search" :: _ => some (cut '"' 2 line)
    | _ => none

/-- The directory `prefix` is set to, below the volume that was found. -/
def earlyPrefix (lines : List String) : Option String :=
  lines.findSome? fun line =>
    match words line with
    | ["set", s] =>
      if "prefix=($root)/".toList.isPrefixOf s.toList then
        some (String.ofList (s.toList.drop "prefix=($root)/".length))
      else none
    | _ => none

/-- A file of a section. -/
inductive Content
  | text (lines : List String)
  | other
  deriving DecidableEq

variable {Dir : Type*} {look : Dir → String → Option Content} {m : Merged Dir} {v : Vars}

/-- A file is there in the merged directory. -/
def Merged.File (look : Dir → String → Option Content) (m : Merged Dir) (path : String)
    (content : Content) : Prop :=
  ∃ part ∈ m.parts, look part.2 path = some content

/-- The files that are referred to are there: the configuration below `prefix`, and the kernels and
the images of both menus. -/
structure InImage (G : Grub) (look : Dir → String → Option Content) (v : Vars) (m : Merged Dir) :
    Prop where
  config : ∃ dir ∈ earlyPrefix v.grubGenEarlyconf,
    m.File look (dir ++ "/grub.cfg") (.text v.grubGenConfig)
  paths : ∀ e ∈ v.grubMenu G ++ v.syslinuxMenu, ∀ path ∈ e.2.kernel :: e.2.initrds,
    ∃ rel content, path = "/" ++ rel ∧ m.File look rel content

/-- And the label that is searched for is the one the ISO is given. -/
structure Resolves (G : Grub) (look : Dir → String → Option Content) (v : Vars) (m : Merged Dir)
    (tools : List IsoTool) : Prop extends InImage G look v m where
  label : ∀ t ∈ tools, ∀ id ∈ t.volid, searchedLabel v.grubGenEarlyconf = some id

/-! ## The early configuration -/

/-- What stands after the word `search`. -/
def Vars.searched (v : Vars) : String :=
  "--no-floppy --set=root --label \"alpine-" ++ (v.volid ++ "\"")

theorem grubGenEarlyconf_eq :
    v.grubGenEarlyconf = ["search " ++ v.searched, "set prefix=($root)/boot/grub"] := by
  have hsearch : ∀ name release arch : String,
      "search --no-floppy --set=root --label \"alpine-" ++ name ++ " " ++ release ++ " " ++ arch ++
        "\"" = "search " ++ ("--no-floppy --set=root --label \"alpine-" ++
          (name ++ " " ++ release ++ " " ++ arch ++ "\"")) := by
    intro name release arch
    have hsplit : "search --no-floppy --set=root --label \"alpine-" =
        "search " ++ "--no-floppy --set=root --label \"alpine-" := rfl
    rw [hsplit]
    simp only [String.append_assoc]
  exact congrArg (· :: ["set prefix=($root)/boot/grub"]) (hsearch _ _ _)

theorem words_search : words ("search " ++ v.searched) = "search" :: words v.searched :=
  words_keyword "search " "search" ' ' rfl rfl rfl v.searched

theorem searchedLabel_eq :
    searchedLabel v.grubGenEarlyconf = some (cut '"' 2 ("search " ++ v.searched)) := by
  rw [grubGenEarlyconf_eq, searchedLabel, List.findSome?_cons, words_search]
  rfl

theorem earlyPrefix_eq : earlyPrefix v.grubGenEarlyconf = some "boot/grub" := by
  rw [grubGenEarlyconf_eq, earlyPrefix, List.findSome?_cons, words_search]
  rfl

/-- The line of the label, as its fields between quotation marks. -/
theorem search_eq : "search " ++ v.searched = "search --no-floppy --set=root --label " ++
    String.singleton '"' ++ ("alpine-" ++ v.volid) ++ String.singleton '"' ++ "" := by
  have hsearch : ∀ id : String, "search " ++ ("--no-floppy --set=root --label \"alpine-" ++
      (id ++ "\"")) = "search --no-floppy --set=root --label " ++ String.singleton '"' ++
        ("alpine-" ++ id) ++ String.singleton '"' ++ "" := by
    intro id
    apply String.toList_injective
    simp
  exact hsearch v.volid

/-- The label has `alpine-` in front of the volume id. -/
theorem searchedLabel_of_plain (h : '"' ∉ v.volid.toList) :
    searchedLabel v.grubGenEarlyconf = some ("alpine-" ++ v.volid) := by
  have hlabel : '"' ∉ ("alpine-" ++ v.volid).toList := by
    rw [String.toList_append, List.mem_append, or_iff_right (by decide)]
    exact h
  rw [searchedLabel_eq, search_eq, cut_two (by decide) hlabel]

theorem searchedLabel_ne : searchedLabel v.grubGenEarlyconf ≠ some v.volid := by
  by_cases h : '"' ∈ v.volid.toList
  · rw [searchedLabel_eq]
    intro he
    exact not_mem_cut '"' 2 _ (Option.some.inj he ▸ h)
  · rw [searchedLabel_of_plain h]
    intro he
    have hlen := congrArg String.length (Option.some.inj he)
    rw [String.length_append] at hlen
    have hseven : "alpine-".length = 7 := rfl
    omega

/-- Whatever the image is made of and with, the label is not its volume id. -/
theorem not_resolves (G : Grub) (v : Vars) (m : Merged Dir) (ISO DESTDIR : String) (isoOpts : List String)
    (present : String → Bool) :
    ¬Resolves G look v m (v.createImageIso ISO DESTDIR isoOpts present) := by
  intro h
  have hvolid : ∃ t ∈ v.createImageIso ISO DESTDIR isoOpts present, t.volid = some v.volid := by
    by_cases hppc : v.ARCH = "ppc64le"
    · refine ⟨.grubMkrescue ISO DESTDIR v.volid, ?_, rfl⟩
      rw [Vars.createImageIso, if_pos hppc]
      exact List.mem_append_right _ List.mem_cons_self
    · rw [Vars.createImageIso, if_neg hppc]
      exact ⟨_, List.mem_append_right _ (List.mem_append_right _ List.mem_cons_self), rfl⟩
  obtain ⟨t, ht, hid⟩ := hvolid
  exact searchedLabel_ne (h.label t ht v.volid hid)

/-- The profile as it stands. -/
def stock : Vars := profileHassioInstaller (container "#!/bin/bash")

/-- The image of it, with both boot loaders. -/
def stockIso : List IsoTool := stock.createImageIso "hassio.iso" "image" [] fun _ => true

/-- All its sections can be built, the volume id is short enough, and the label that is searched for
is another. -/
theorem stock_not_found : (∀ q ∈ stock.requests spelled, (logged.build q).isSome) ∧
    stockIso.filterMap IsoTool.volid = ["hassinstaller 1.2 x86_64"] ∧
    "hassinstaller 1.2 x86_64".length ≤ 32 ∧
    searchedLabel stock.grubGenEarlyconf = some "alpine-hassinstaller 1.2 x86_64" ∧
    ∀ (G : Grub) (look : List Tool → String → Option Content) (m : Merged (List Tool)),
      ¬Resolves G look stock m stockIso := by
  have hvolids : stockIso.filterMap IsoTool.volid = ["hassinstaller 1.2 x86_64"] := rfl
  have hlabel : searchedLabel stock.grubGenEarlyconf = some "alpine-hassinstaller 1.2 x86_64" :=
    searchedLabel_of_plain (by decide)
  refine ⟨fun q _ => ?_, hvolids, by decide, hlabel, fun G look m h => ?_⟩
  · rw [logged_build]
    rfl
  · have hid : "hassinstaller 1.2 x86_64" ∈ stockIso.filterMap IsoTool.volid := by
      rw [hvolids]
      exact List.mem_cons_self
    obtain ⟨t, ht, hid⟩ := List.mem_filterMap.mp hid
    have hfound := h.label t ht _ hid
    rw [hlabel] at hfound
    revert hfound
    decide

/-! ## What does resolve -/

/-- What the tools leave: `update-kernel` the kernel and the initramfs of the flavor, a boot addon the
files it supplies, and a file that is written what was written. -/
structure Files (T : Tools Dir) (look : Dir → String → Option Content)
    (supplies : String → List String) : Prop where
  write : ∀ path lines d, (T.exec (.write path lines) d).1 = true →
    look (T.exec (.write path lines) d).2 path = some (.text lines)
  updateKernel : ∀ args d, ∀ path ∈ ["boot/vmlinuz-" ++ args.flavor, "boot/initramfs-" ++ args.flavor],
    (look (T.exec (.updateKernel args) d).2 path).isSome
  fetchBoot : ∀ index addon d, ∀ path ∈ supplies addon,
    (look (T.exec (.fetchBoot index addon) d).2 path).isSome
  keeps : ∀ index addon d path, (look d path).isSome →
    (look (T.exec (.fetchBoot index addon) d).2 path).isSome

/-- What one command leaves under a path. -/
def Tool.leaves (supplies : String → List String) (path : String) : Tool → Option Content
  | .write dst lines => if dst = path then some (.text lines) else none
  | .updateKernel args =>
    if path ∈ ["boot/vmlinuz-" ++ args.flavor, "boot/initramfs-" ++ args.flavor] then some .other
    else none
  | .fetchBoot _ addon => if path ∈ supplies addon then some .other else none
  | _ => none

/-- Of what was run, the last command to leave something under a path counts. -/
def recorded (supplies : String → List String) (d : List Tool) (path : String) : Option Content :=
  d.reverse.findSome? (Tool.leaves supplies path)

theorem recorded_concat (supplies : String → List String) (d : List Tool) (t : Tool) (path : String) :
    recorded supplies (d ++ [t]) path = (t.leaves supplies path).or (recorded supplies d path) := by
  rw [recorded, List.reverse_concat, List.findSome?_cons, recorded]
  cases t.leaves supplies path <;> rfl

theorem logged_files (supplies : String → List String) :
    Files logged (recorded supplies) supplies where
  write path lines d _ := by
    rw [logged, recorded_concat, Tool.leaves, if_pos rfl, Option.some_or]
  updateKernel args d path h := by
    rw [logged, recorded_concat, Tool.leaves, if_pos h, Option.some_or]
    rfl
  fetchBoot index addon d path h := by
    rw [logged, recorded_concat, Tool.leaves, if_pos h, Option.some_or]
    rfl
  keeps index addon d path h := by
    rw [logged, recorded_concat, Option.isSome_or, h, Bool.or_true]

variable {K : KeyTools} {T : Tools Dir} {supplies : String → List String} {w : Work Dir}
  {p : Progress Dir}

/-- The boot addons are laid over what `update-kernel` left. -/
theorem fetchBoot_all (hT : Files T look supplies) (index : String) (addons : List String)
    {r : Bool × Dir} {path : String}
    (h : (look r.2 path).isSome ∨ ∃ a ∈ addons, path ∈ supplies a) :
    (look (T.body (addons.map fun a => .run (.fetchBoot index a)) r).2 path).isSome := by
  induction addons generalizing r with
  | nil => exact h.resolve_right fun ⟨_, ha, _⟩ => by cases ha
  | cons a addons ih =>
    refine ih ?_
    rcases h with h | ⟨b, hb, hpath⟩
    · exact .inl (hT.keeps index a r.2 path h)
    · rcases List.mem_cons.mp hb with rfl | hb
      · exact .inl (hT.fetchBoot index b r.2 path hpath)
      · exact .inr ⟨b, hb, hpath⟩

theorem body_of_build {q : Request} {d : Dir} (h : T.build q = some d) :
    T.body q.body (true, T.empty) = (true, d) := by
  rw [Tools.build] at h
  split at h
  next hr => rw [hr, Option.some.inj h]
  next => cases h

/-- What a kernel section has in it. -/
theorem look_kernel (hT : Files T look supplies) {f path : String} {d : Dir}
    (h : T.build (v.requestKernel K f) = some d)
    (hpath : path ∈ ["boot/vmlinuz-" ++ f, "boot/initramfs-" ++ f] ∨
      ∃ a ∈ v.bootAddons, path ∈ supplies a) : (look d path).isSome := by
  obtain ⟨args, hflavor, hbody⟩ : ∃ args : UpdateKernel, args.flavor = f ∧
      T.body (if v.bootAddons = [] then [.skip] else
        v.bootAddons.map fun a => .run (.fetchBoot v.index a)) (T.exec (.updateKernel args) T.empty) =
          (true, d) := ⟨_, rfl, body_of_build h⟩
  rw [← hflavor] at hpath
  by_cases hnil : v.bootAddons = []
  · have hkernel := hpath.resolve_right fun ⟨_, ha, _⟩ => by
      rw [hnil] at ha
      cases ha
    rw [if_pos hnil] at hbody
    rw [← (Prod.mk.inj hbody).2]
    exact hT.updateKernel args T.empty path hkernel
  · rw [if_neg hnil] at hbody
    have hall := fetchBoot_all hT v.index v.bootAddons
      (hpath.imp_left (hT.updateKernel args T.empty path))
    rwa [hbody] at hall

/-- What the section of `grub.cfg` has in it. -/
theorem look_grubCfg (hT : Files T look supplies) {d : Dir}
    (h : T.build (v.requestGrubCfg K) = some d) :
    look d "boot/grub/grub.cfg" = some (.text v.grubGenConfig) := by
  have hbody := body_of_build h
  rw [Vars.requestGrubCfg, Vars.buildGrubCfg, Vars.buildCfg, Tools.body, Tools.body, Tools.body]
    at hbody
  have hwrite := hT.write _ _ _ (congrArg Prod.fst hbody)
  rwa [hbody] at hwrite

/-- The sections of a build with nothing stale are in the merged directory. -/
theorem part_of_request (hb : Built false (v.requests K) ⟨w, false, false, []⟩ p)
    (hclean : ∀ q ∈ v.requests K, Memo.Clean Request.dir T.build p.work.sections q)
    {q : Request} (hq : q ∈ v.requests K) :
    ∃ d, T.build q = some d ∧ (q.dir, d) ∈ (mergeSections v p.mySections p.work).parts := by
  obtain ⟨d, hd⟩ := Option.isSome_iff_exists.mp (hb.present rfl q hq)
  refine ⟨d, hclean q hq d hd, mem_mergeSections.mpr ⟨?_, hd⟩⟩
  rw [hb.mySections]
  exact List.mem_append_right _ (List.mem_map_of_mem hq)

/-- What an entry of either menu starts is one of the flavors with its images. -/
theorem mem_menus (hf : ∀ f ∈ v.kernelFlavors, IsWord f) (hu : ∀ p ∈ v.initrdUcode, IsWord p)
    (hx : v.xenParams = none) (hcomma : ∀ p ∈ v.kernelFlavors ++ v.initrdUcode, ',' ∉ p.toList)
    (hp : v.Plain) {G : Grub} {e : String × Boot} (he : e ∈ v.grubMenu G ++ v.syslinuxMenu) :
    ∃ f ∈ v.kernelFlavors,
      e.2.kernel = "/boot/vmlinuz-" ++ f ∧ e.2.initrds = v.initrds f := by
  rw [grubMenu_eq hf hu hx hp, syslinuxMenu_eq hf hu hx] at he
  rcases List.mem_append.mp he with he | he
  · obtain ⟨f, hmem, he⟩ := List.mem_flatMap.mp he
    rcases List.mem_cons.mp he with rfl | he
    · exact ⟨f, hmem, rfl, rfl⟩
    · rw [List.mem_singleton.mp he]
      exact ⟨f, hmem, rfl, rfl⟩
  · obtain ⟨f, hmem, rfl⟩ := List.mem_map.mp he
    obtain ⟨hflavors, hucode⟩ := List.forall_mem_append.mp hcomma
    exact ⟨f, hmem, rfl, fields_initrds_iff.mpr ⟨hflavors f hmem, hucode⟩⟩

/-- In the image of a build for EFI with nothing stale, all files that are referred to are there. -/
theorem inImage_of_built (hT : Files T look supplies)
    (hb : Built false (v.requests K) ⟨w, false, false, []⟩ p)
    (hclean : ∀ q ∈ v.requests K, Memo.Clean Request.dir T.build p.work.sections q)
    (hmod : v.grubMod ≠ []) (hefi : v.efiTarget.isSome) (hx : v.xenParams = none)
    (hf : ∀ f ∈ v.kernelFlavors, IsWord f) (hu : ∀ p ∈ v.initrdUcode, IsWord p)
    (hcomma : ∀ p ∈ v.kernelFlavors ++ v.initrdUcode, ',' ∉ p.toList)
    (hp : v.Plain) (G : Grub)
    (hucode : ∀ path ∈ v.initrdUcode, ∃ a ∈ v.bootAddons, ∃ rel ∈ supplies a, path = "/" ++ rel) :
    InImage G look v (mergeSections v p.mySections p.work) := by
  constructor
  case config =>
    have hq : v.requestGrubCfg K ∈ v.requests K := by
      obtain ⟨⟨format, efi⟩, htarget⟩ := Option.isSome_iff_exists.mp hefi
      refine List.mem_flatten.mpr ⟨v.sectionGrubEfi K, by simp [Vars.allSections], ?_⟩
      rw [Vars.sectionGrubEfi, htarget]
      simp [hmod]
    obtain ⟨d, hd, hpart⟩ := part_of_request hb hclean hq
    exact ⟨"boot/grub", earlyPrefix_eq, _, hpart, look_grubCfg hT hd⟩
  case paths =>
    intro e he path hpath
    obtain ⟨f, hmem, hkernel, hinitrds⟩ := mem_menus hf hu hx hcomma hp he
    have hq : v.requestKernel K f ∈ v.requests K :=
      List.mem_append_left _ (List.mem_map_of_mem hmem)
    obtain ⟨d, hd, hpart⟩ := part_of_request hb hclean hq
    have hfile : ∀ rel, rel ∈ ["boot/vmlinuz-" ++ f, "boot/initramfs-" ++ f] ∨
        (∃ a ∈ v.bootAddons, rel ∈ supplies a) → ∃ content,
          (mergeSections v p.mySections p.work).File look rel content := by
      intro rel hrel
      obtain ⟨content, hcontent⟩ := Option.isSome_iff_exists.mp (look_kernel hT hd hrel)
      exact ⟨content, _, hpart, hcontent⟩
    have hvmlinuz : "/boot/vmlinuz-" ++ f = "/" ++ ("boot/vmlinuz-" ++ f) := by
      rw [← String.append_assoc]
      rfl
    have hinitramfs : "/boot/initramfs-" ++ f = "/" ++ ("boot/initramfs-" ++ f) := by
      rw [← String.append_assoc]
      rfl
    rw [hkernel, hinitrds] at hpath
    rcases List.mem_cons.mp hpath with rfl | hpath
    · obtain ⟨content, hcontent⟩ := hfile _ (.inl List.mem_cons_self)
      exact ⟨_, content, hvmlinuz, hcontent⟩
    · rcases List.mem_append.mp hpath with hpath | hpath
      · obtain ⟨a, ha, rel, hrel, rfl⟩ := hucode path (List.mem_reverse.mp hpath)
        obtain ⟨content, hcontent⟩ := hfile rel (.inr ⟨a, ha, hrel⟩)
        exact ⟨rel, content, rfl, hcontent⟩
      · obtain ⟨content, hcontent⟩ :=
          hfile _ (.inl (List.mem_cons_of_mem _ (List.mem_singleton_self _)))
        rw [List.mem_singleton.mp hpath]
        exact ⟨_, content, hinitramfs, hcontent⟩

end HassioInstaller.Mkimage

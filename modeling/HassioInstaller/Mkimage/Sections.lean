import HassioInstaller.Mkimage.Overlay

/-! # The sections of an image

`mkimg.base.sh`: every `section_*` function names what it needs built, by a key and further
arguments, and the `build_*` function of that name makes it in an empty work directory. A builder is
a sequence of commands; under `set +e`, which holds throughout `build_profile`, the status of a
command is looked at only where the function says `|| return 1`, and at its end. -/

namespace HassioInstaller.Mkimage

/-- The variables a section reads once the profile has set its own, and the files it reads. Lists
are variables that are only used split into words. -/
structure Vars where
  ARCH : String
  PROFILE : String
  RELEASE : String
  buildDate : String
  /-- `--hostkeys` was given. -/
  hostkeys : Bool
  abuildPubkey : String
  /-- The key `abuild-sign` signs with. -/
  privkey : String
  /-- `etc/apk/repositories` below `$APKROOT`. -/
  repositories : List String
  /-- The package index the repositories serve. -/
  index : String
  /-- The overlay scripts in the working directory, below `$HOME/.mkimage` and in `$scriptdir`. -/
  inPWD : String → Option Overlay
  inHome : String → Option Overlay
  inScriptdir : String → Option Overlay
  custom : Custom
  arch : List String
  kernelFlavors : List String
  kernelAddons : List String
  modloopAddons : List String
  bootAddons : List String
  initrdUcode : List String
  apks : List String
  initfsFeatures : String
  initfsCmdline : String
  kernelCmdline : String
  modloopSign : String
  modloopfw : String
  apkovl : String
  hostname : String
  grubMod : List String
  syslinuxSerial : String
  syslinuxTimeout : String
  syslinuxPrompt : String
  xenParams : Option String
  ubootInstall : String
  profileAbbrev : String
  imageName : String
  imageExt : String
  outputFormat : String
  outputFilename : String

/-- `${x:-y}` -/
def orElse (x y : String) : String := if x = "" then y else x

/-- The arguments of `update-kernel`, and what it reads of the package root. -/
structure UpdateKernel where
  hostkeys : Bool
  apkPubkey : String
  modloopsign : Bool
  flavor : String
  arch : String
  package : List String
  feature : String
  modloopfw : String
  repositories : List String
  index : String
  deriving DecidableEq

/-- The commands of the builders, with all they read outside of the work directory. Paths are below
the work directory. -/
inductive Tool
  | mkdir (path : String)
  | write (path : String) (lines : List String)
  | mv (src dst : String)
  | rm (path : String)
  | touch (path : String)
  | updateKernel (args : UpdateKernel)
  /-- `apk fetch --stdout addon | tar -C "$DESTDIR" -zx boot/` -/
  | fetchBoot (index addon : String)
  /-- `apk fetch --recursive` of the packages listed. -/
  | fetchApks (listing : List String) (dir : String)
  | lsApks (dir : String)
  | apkIndex (description arch dir : String)
  | abuildSign (privkey path : String)
  /-- `fakeroot script host`, with what the script finds to copy. -/
  | fakeroot (script : Option Overlay) (host : String)
      (found : List (Option (List (String × Entry))))
  /-- `apk fetch --stdout syslinux | tar -C "$DESTDIR" -xz usr/share/syslinux` -/
  | fetchSyslinux (listing : List String)
  | grubMkimage (config : List String) (output format : String) (modules : List String)
  deriving DecidableEq

/-- A command of a builder. -/
inductive Step
  /-- Its status counts only when it comes last. -/
  | run (t : Tool)
  /-- `t || return 1` -/
  | orReturn (t : Tool)
  /-- A compound command that does nothing. -/
  | skip
  deriving DecidableEq

/-- `apk` and `sha1sum` as the keys use them: what `apk fetch --simulate` lists, sorted, and the
checksum of a text. -/
structure KeyTools where
  listing : (recursive : Bool) → (ARCH : String) → (repositories : List String) → (index : String) →
    (packages : List String) → List String
  checksum : List String → String
  checksumScript : Overlay → String

/-- Checksums have no collisions, and are of hexadecimal digits. -/
structure KeyTools.Sound (K : KeyTools) : Prop where
  injective : Function.Injective K.checksum
  injectiveScript : Function.Injective K.checksumScript
  hex : ∀ l, ∀ c ∈ (K.checksum l).toList, c.isAlphanum
  hexScript : ∀ o, ∀ c ∈ (K.checksumScript o).toList, c.isAlphanum

def KeyTools.fetch (K : KeyTools) (v : Vars) (packages : List String) : List String :=
  K.listing false v.ARCH v.repositories v.index packages

def KeyTools.fetchRecursive (K : KeyTools) (v : Vars) (packages : List String) : List String :=
  K.listing true v.ARCH v.repositories v.index packages

/-- The builders by the name `build_section` is called with. -/
inductive Builder
  | kernel
  | apks
  | apkovl
  | syslinux
  | syslinuxCfg
  | grubCfg
  | grubEfi
  deriving DecidableEq, Repr

def Builder.name : Builder → String
  | .kernel => "kernel"
  | .apks => "apks"
  | .apkovl => "apkovl"
  | .syslinux => "syslinux"
  | .syslinuxCfg => "syslinux_cfg"
  | .grubCfg => "grub_cfg"
  | .grubEfi => "grub_efi"

/-- A call of `build_section`: the builder, its arguments before, from and after the checksum, and
what the builder does when it is called with them. -/
structure Request where
  builder : Builder
  args : List String
  id : Option String
  rest : List String
  body : List Step

/-- `${args//[^a-zA-Z0-9]/_}` -/
def sanitize (c : Char) : Char := if c.isAlphanum then c else '_'

/-- Words as `"$@"` joins them to the one before. -/
def joined (words : List String) : List Char := words.flatMap fun w => ' ' :: w.toList

/-- `$_dir` -/
def Request.dir (q : Request) : String :=
  String.ofList ((q.builder.name.toList ++ joined (q.args ++ q.id.toList ++ q.rest)).map sanitize)

namespace Vars

variable (K : KeyTools) (v : Vars)

/-! ## Kernels -/

def buildKernel (flavor : String) (pkgs : List String) : List Step :=
  .run (.updateKernel {
    hostkeys := v.hostkeys
    apkPubkey := v.abuildPubkey
    modloopsign := v.modloopSign = "yes"
    flavor := flavor
    arch := v.ARCH
    package := pkgs
    feature := v.initfsFeatures
    modloopfw := v.modloopfw
    repositories := v.repositories
    index := v.index }) ::
  if v.bootAddons = [] then [.skip] else v.bootAddons.map fun a => .run (.fetchBoot v.index a)

def kernelPkgs (f : String) : List String :=
  ["linux-" ++ f, "linux-firmware", "wireless-regdb"] ++ v.modloopAddons ++
    v.kernelAddons.map (· ++ "-" ++ f)

/-- What the checksum of a kernel is taken of. -/
def kernelId (f : String) : List String :=
  (v.initfsFeatures ++ "::" ++ if v.hostkeys then "--hostkeys" else "") ::
    K.fetch v ("alpine-base" :: v.kernelPkgs f)

/-- `build_section kernel $ARCH $_f $id $_pkgs` -/
def requestKernel (f : String) : Request where
  builder := .kernel
  args := [v.ARCH, f]
  id := some (K.checksum (v.kernelId K f))
  rest := v.kernelPkgs f
  body := v.buildKernel f (v.kernelPkgs f)

def sectionKernels : List Request := v.kernelFlavors.map (v.requestKernel K)

/-! ## Packages -/

def buildApks : List Step :=
  let archdir := "apks/" ++ v.ARCH
  [.run (.mkdir archdir),
    .run (.fetchApks (K.fetchRecursive v v.apks) archdir),
    .orReturn (.lsApks archdir),
    .run (.apkIndex v.RELEASE v.ARCH archdir),
    .run (.abuildSign v.privkey (archdir ++ "/APKINDEX.tar.gz")),
    .run (.touch "apks/.boot_repository")]

/-- `build_section apks $ARCH $(apk fetch ... --recursive $apks | sort | checksum)` -/
def requestApks : Request where
  builder := .apks
  args := [v.ARCH]
  id := some (K.checksum (K.fetchRecursive v v.apks))
  rest := []
  body := v.buildApks K

def sectionApks : List Request := if v.apks = [] then [] else [v.requestApks K]

/-! ## The overlay -/

/-- The overlay script that is run. -/
def script : Option Overlay :=
  v.inPWD v.apkovl <|> v.inHome v.apkovl <|> v.inScriptdir v.apkovl

/-- What the overlay script finds to copy. -/
def found : List (Option (List (String × Entry))) := (v.script.getD []).reads v.custom

def buildApkovl : List Step := [.run (.fakeroot v.script v.hostname v.found)]

/-- `build_section apkovl $hostname $(checksum < "$apkovl")`. The checksum is of the script in the
working directory, and there is no word when there is no such file. -/
def requestApkovl : Request where
  builder := .apkovl
  args := [v.hostname]
  id := (v.inPWD v.apkovl).map K.checksumScript
  rest := []
  body := v.buildApkovl

def sectionApkovl : List Request :=
  if v.apkovl = "" || v.hostname = "" then [] else [v.requestApkovl K]

/-! ## Boot loaders -/

def isX86 : Bool := v.ARCH = "x86" || v.ARCH = "x86_64"

def buildSyslinux : List Step :=
  [.run (.mkdir "boot/syslinux"), .run (.fetchSyslinux (K.fetch v ["syslinux"]))] ++
  ["isohdpfx.bin", "isolinux.bin", "ldlinux.c32", "libutil.c32", "libcom32.c32", "mboot.c32"].map
    (fun fn => .orReturn (.mv ("usr/share/syslinux/" ++ fn) ("boot/syslinux/" ++ fn))) ++
  [.run (.rm "usr")]

/-- `build_section syslinux $(apk fetch ... syslinux | sort | checksum)` -/
def requestSyslinux : Request where
  builder := .syslinux
  args := []
  id := some (K.checksum (K.fetch v ["syslinux"]))
  rest := []
  body := v.buildSyslinux K

def sectionSyslinux : List Request :=
  if !v.isX86 || v.outputFormat ≠ "iso" then [] else [v.requestSyslinux K]

/-- An entry of `syslinux.cfg`; the last ucode image comes first. -/
def syslinuxEntry (f : String) : List String :=
  match v.xenParams with
  | none => ["", "LABEL " ++ f, "MENU LABEL Linux " ++ f, "KERNEL /boot/vmlinuz-" ++ f,
      "INITRD " ++ v.initrdUcode.foldl (fun initrd p => p ++ "," ++ initrd) ("/boot/initramfs-" ++ f),
      "FDTDIR /boot/dtbs-" ++ f, "APPEND " ++ v.initfsCmdline ++ " " ++ v.kernelCmdline]
  | some xen => ["", "LABEL " ++ f, "MENU LABEL Xen/Linux " ++ f, "KERNEL /boot/syslinux/mboot.c32",
      "APPEND /boot/xen.gz " ++ xen ++ " --- /boot/vmlinuz-" ++ f ++ " " ++ v.initfsCmdline ++ " " ++
        v.kernelCmdline ++ " --- /boot/initramfs-" ++ f]

def syslinuxGenConfig : List String :=
  (if v.syslinuxSerial = "" then [] else ["SERIAL " ++ v.syslinuxSerial]) ++
  ["TIMEOUT " ++ orElse v.syslinuxTimeout "10", "PROMPT " ++ orElse v.syslinuxPrompt "1",
    "DEFAULT " ++ v.kernelFlavors.headD ""] ++
  v.kernelFlavors.flatMap v.syslinuxEntry

/-- `dirname` of a path with a slash in it. -/
def dirname (path : String) : String :=
  String.ofList (['/'].intercalate (path.toList.splitOn '/').dropLast)

/-- `build_syslinux_cfg` and `build_grub_cfg`: a generated text under the given path. -/
def buildCfg (path : String) (lines : List String) : List Step :=
  [.run (.mkdir (dirname path)), .run (.write path lines)]

def buildSyslinuxCfg (path : String) : List Step := buildCfg path v.syslinuxGenConfig

/-- `$syslinux_cfg` -/
def syslinuxCfg : String :=
  if v.ubootInstall ≠ "" then "extlinux/extlinux.conf"
  else if v.isX86 && v.outputFormat = "iso" then "boot/syslinux/syslinux.cfg" else ""

/-- `build_section syslinux_cfg $syslinux_cfg $(syslinux_gen_config | checksum)` -/
def requestSyslinuxCfg : Request where
  builder := .syslinuxCfg
  args := [v.syslinuxCfg]
  id := some (K.checksum v.syslinuxGenConfig)
  rest := []
  body := v.buildSyslinuxCfg v.syslinuxCfg

def sectionSyslinuxCfg : List Request :=
  if v.syslinuxCfg = "" then [] else [v.requestSyslinuxCfg K]

/-- `${text/quiet}`: the first occurrence of the word is dropped. -/
def dropQuiet : List Char → List Char
  | [] => []
  | c :: s => if "quiet".toList.isPrefixOf (c :: s) then (c :: s).drop 5 else c :: dropQuiet s

def grubEntry (f : String) : List String :=
  match v.xenParams with
  | none =>
    let initrd := v.initrdUcode.foldl (fun initrd p => p ++ " " ++ initrd) ("/boot/initramfs-" ++ f)
    ["", "menuentry \"Home Assistant OS Installer\" \x7b",
      "linux\t/boot/vmlinuz-" ++ f ++ " " ++ v.initfsCmdline ++ " " ++ v.kernelCmdline,
      "initrd\t" ++ initrd, "\x7d",
      "menuentry \"Home Assistant OS Installer - DEBUG LOGGING\" \x7b",
      "linux\t/boot/vmlinuz-" ++ f ++ " " ++ String.ofList (dropQuiet v.initfsCmdline.toList) ++
        " hass.debug=1 " ++ v.kernelCmdline,
      "initrd\t" ++ initrd, "\x7d"]
  | some xen => ["", "menuentry \"Xen/Linux " ++ f ++ "\" \x7b", "multiboot2\t/boot/xen.gz " ++ xen,
      "module2\t\t/boot/vmlinuz-" ++ f ++ " " ++ v.initfsCmdline ++ " " ++ v.kernelCmdline,
      "module2\t\t/boot/initramfs-" ++ f, "\x7d"]

def grubGenConfig : List String := "set timeout=1" :: v.kernelFlavors.flatMap v.grubEntry

def buildGrubCfg (path : String) : List Step := buildCfg path v.grubGenConfig

/-- `build_section grub_cfg boot/grub/grub.cfg $(grub_gen_config | checksum)` -/
def requestGrubCfg : Request where
  builder := .grubCfg
  args := ["boot/grub/grub.cfg"]
  id := some (K.checksum v.grubGenConfig)
  rest := []
  body := v.buildGrubCfg "boot/grub/grub.cfg"

def sectionGrubieee1275 : List Request :=
  if v.ARCH ≠ "ppc64le" || v.outputFormat ≠ "iso" then []
  else [requestGrubCfg K { v with kernelCmdline := v.kernelCmdline ++ " console=hvc0" }]

def grubGenEarlyconf : List String :=
  ["search --no-floppy --set=root --label \"alpine-" ++ orElse v.profileAbbrev v.PROFILE ++ " " ++
    v.RELEASE ++ " " ++ v.ARCH ++ "\"", "set prefix=($root)/boot/grub"]

/-- The early configuration is written below `$WORKDIR` and read back by `grub-mkimage`. -/
def buildGrubEfi (format efi : String) : List Step :=
  [.run (.mkdir "efi/boot"),
    .run (.grubMkimage v.grubGenEarlyconf ("efi/boot/" ++ efi) format v.grubMod)]

/-- `$_format` and `$_efi` -/
def efiTarget : Option (String × String) :=
  if v.ARCH = "aarch64" then some ("arm64-efi", "bootaa64.efi")
  else if "arm".toList.isPrefixOf v.ARCH.toList then some ("arm-efi", "bootarm.efi")
  else if v.ARCH = "x86" then some ("i386-efi", "bootia32.efi")
  else if v.ARCH = "x86_64" then some ("x86_64-efi", "bootx64.efi")
  else if v.ARCH = "riscv64" then some ("riscv64-efi", "bootriscv64.efi")
  else none

/-- `build_section grub_efi $_format $_efi $(grub_gen_earlyconf | checksum)` -/
def requestGrubEfi (format efi : String) : Request where
  builder := .grubEfi
  args := [format, efi]
  id := some (K.checksum v.grubGenEarlyconf)
  rest := []
  body := v.buildGrubEfi format efi

def sectionGrubEfi : List Request :=
  match v.efiTarget with
  | some (format, efi) =>
    if v.grubMod = [] then [] else [v.requestGrubCfg K, v.requestGrubEfi K format efi]
  | none => []

/-- `$all_sections`, in the order of `mkimg.base.sh`. -/
def allSections : List (List Request) :=
  [v.sectionKernels K, v.sectionApks K, v.sectionApkovl K, v.sectionSyslinux K,
    v.sectionSyslinuxCfg K, v.sectionGrubieee1275 K, v.sectionGrubEfi K]

/-- What a build asks for, in order. -/
def requests : List Request := (v.allSections K).flatten

end Vars

/-! ## Profiles -/

def profileBase (v : Vars) : Vars :=
  { v with
    kernelFlavors := ["lts"]
    initfsCmdline := "modules=loop,squashfs,sd-mod,usb-storage quiet"
    initfsFeatures := "ata base bootchart cdrom ext4 mmc nvme raid scsi squashfs usb virtio"
    modloopSign := "yes"
    grubMod := ["all_video", "disk", "part_gpt", "part_msdos", "linux", "normal", "configfile",
      "search", "search_label", "efi_gop", "fat", "iso9660", "cat", "echo", "ls", "test", "true",
      "help", "gzio"] ++
      if "x86".toList.isPrefixOf v.ARCH.toList then ["multiboot2", "efi_uga"] else []
    apks := ["alpine-base", "busybox", "kbd-bkeymaps", "chrony", "dhcpcd", "e2fsprogs", "haveged",
      "network-extras", "openntpd", "openssl", "openssh", "tzdata", "wget"]
    apkovl := ""
    hostname := "alpine" }

def profileHassioInstaller (v : Vars) : Vars :=
  let v := profileBase v
  { v with
    hostname := "hassio-installer"
    profileAbbrev := "hassinstaller"
    imageExt := "iso"
    arch := ["x86_64"]
    outputFormat := "iso"
    kernelAddons := ["xtables-addons"]
    apks := v.apks ++ ["dialog", "git", "bash", "iwd", "pv", "parted", "hdparm", "nvme-cli", "curl",
      "ntfs-3g", "ntfs-3g-progs"]
    apkovl := "genapkovl-hassio-installer.sh" }

end HassioInstaller.Mkimage

import Mathlib.Logic.Function.Basic

/-! # The overlay script

`genapkovl-hassio-installer.sh` runs under `sh -e`: it writes files and links below a temporary
directory, copies the installer and the drivers there, and packs the directory. Scripts of this
kind are lists of commands, so that an edited script is another list. -/

namespace HassioInstaller.Mkimage

inductive Entry
  | file (perms text : String)
  | link (target : String)
  deriving DecidableEq, Repr

/-- The directory `custom-scripts`: its files by name, and what its directories hold by path. -/
structure Custom where
  file : String → Option Entry
  dir : String → List (String × Entry)

/-- A here-document. Only the one with the host name has a variable of the script in it. -/
inductive Doc
  | text (lines : String)
  | hostname
  deriving DecidableEq, Repr

def Doc.expand (host : String) : Doc → String
  | .text lines => lines
  | .hostname => host ++ "\n"

inductive Command
  | makefile (perms path : String) (doc : Doc)
  | rcAdd (service level : String)
  /-- `cp custom-scripts/name "$tmp"/` -/
  | cp (name : String)
  /-- `cp -R custom-scripts/name/* "$tmp"/` -/
  | cpAll (name : String)
  deriving DecidableEq, Repr

abbrev Overlay := List Command

/-- The temporary directory, and the archive made of it. -/
abbrev Archive := String → Option Entry

/-- What a command reads of `custom-scripts`. A missing file, and a pattern that matches none, make
the command fail. -/
def Command.reads (custom : Custom) : Command → Option (List (String × Entry))
  | .cp name => (custom.file name).map fun e => [(name, e)]
  | .cpAll name => if custom.dir name = [] then none else some (custom.dir name)
  | _ => some []

/-- What the commands of a script read, one after the other. -/
def Overlay.reads (custom : Custom) (script : Overlay) : List (Option (List (String × Entry))) :=
  script.map (Command.reads custom)

def put (tmp : Archive) (file : String × Entry) : Archive :=
  Function.update tmp file.1 (some file.2)

/-- One command, given what it finds to copy. -/
def Command.run (host : String) (tmp : Archive) : Command → List (String × Entry) → Archive
  | .makefile perms path doc, _ => put tmp (path, .file perms (doc.expand host))
  | .rcAdd service level, _ =>
    put tmp ("etc/runlevels/" ++ level ++ "/" ++ service, .link ("/etc/init.d/" ++ service))
  | _, files => files.foldl put tmp

/-- The script up to its first failing command, given what its commands find to copy. -/
def Overlay.run (host : String) :
    Overlay → List (Option (List (String × Entry))) → Archive → Option Archive
  | c :: script, some files :: found, tmp => run host script found (c.run host tmp files)
  | _ :: _, _, _ => none
  | [], _, tmp => some tmp

/-- `genapkovl-hassio-installer.sh`; `docs` are its here-documents by the files they become. -/
def genapkovlHassioInstaller (docs : String → String) : Overlay :=
  [.makefile "0644" "etc/hostname" .hostname] ++
  ["etc/inittab", "etc/network/interfaces", "etc/apk/world", "etc/motd", "root/.profile"].map
    (fun path => .makefile "0644" path (.text (docs path))) ++
  [.makefile "0755" "etc/init.d/bashdefault" (.text (docs "etc/init.d/bashdefault"))] ++
  [.cp "installer.sh"] ++
  ["devfs", "dmesg", "mdev", "hwdrivers", "modloop", "bashdefault"].map (.rcAdd · "sysinit") ++
  ["hwclock", "modules", "sysctl", "hostname", "bootmisc", "syslog"].map (.rcAdd · "boot") ++
  ["mount-ro", "killprocs", "savecache"].map (.rcAdd · "shutdown") ++
  [.cpAll "drivers_rootfs"]

end HassioInstaller.Mkimage

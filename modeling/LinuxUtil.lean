import LinuxUtil.Proofs.Fat.Fresh
import LinuxUtil.Proofs.Fat.Names
import LinuxUtil.Proofs.Fat.Capacity
import LinuxUtil.Proofs.Gpt.Headers
import LinuxUtil.Proofs.Gpt.Crc
import LinuxUtil.Proofs.Gpt.Installer
import LinuxUtil.Proofs.Gpt.Installed
import LinuxUtil.Proofs.Gpt.Readgpt
import LinuxUtil.Proofs.Gpt.Mkgpt
import LinuxUtil.Proofs.Bootloader.Readfile
import LinuxUtil.Proofs.Bootloader.Bzimage
import LinuxUtil.Proofs.Bootloader.Segments
import LinuxUtil.Proofs.Bootloader.Boot
import LinuxUtil.Proofs.Bootloader.Gettext
import LinuxUtil.Proofs.Bootloader.Disk
import LinuxUtil.Proofs.Bootloader.Getpayload
import LinuxUtil.Proofs.Apt.Precedence
import LinuxUtil.Proofs.Apt.Satisfy
import LinuxUtil.Proofs.Apt.Tables
import LinuxUtil.Proofs.Apt.Lines
import LinuxUtil.Proofs.Apt.Match
import LinuxUtil.Proofs.Apt.Url
import LinuxUtil.Proofs.Apt.Views
import LinuxUtil.Proofs.Apt.Load
import LinuxUtil.Proofs.Httpd.Bounds
import LinuxUtil.Proofs.Httpd.Flat
import LinuxUtil.Proofs.Httpd.Lines
import LinuxUtil.Proofs.Httpd.Fields
import LinuxUtil.Proofs.Httpd.Render
import LinuxUtil.Proofs.Httpd.Confine
import LinuxUtil.Proofs.Httpd.Stream
import LinuxUtil.Proofs.Httpd.Verdict
import LinuxUtil.Proofs.Httpd.Session
import LinuxUtil.Proofs.Httpd.Serve
import LinuxUtil.Proofs.Malloc.Realloc
import LinuxUtil.Proofs.Malloc.Sizes
import LinuxUtil.Proofs.Malloc.Owning

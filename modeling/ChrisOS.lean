import ChrisOS.Lib.Loop
import ChrisOS.Lib.Word
import ChrisOS.Lib.Bytes
import ChrisOS.Lib.Tiling
import ChrisOS.Lib.Writes
import ChrisOS.Lib.Chains
import ChrisOS.Lib.Run
import ChrisOS.Lib.Ring
import ChrisOS.Lib.Records
import ChrisOS.Lib.Cache
import ChrisOS.Lib.Traced
import ChrisOS.Lib.Tlv
import ChrisOS.Lib.Deadline
import ChrisOS.Lib.Decimal
import ChrisOS.Lib.Signed
import ChrisOS.Lib.Stack
import ChrisOS.Kernel.Interrupts
import ChrisOS.Kernel.Interrupts.Frames
import ChrisOS.Kernel.Interrupts.Transparency
import ChrisOS.Kernel.Interrupts.Controller
import ChrisOS.Kernel.Interrupts.Lines
import ChrisOS.Kernel.Mm
import ChrisOS.Kernel.Mm.Refinement
import ChrisOS.Kernel.Mm.Runs
import ChrisOS.Kernel.Mm.BlockList
import ChrisOS.Kernel.Mm.Calls
import ChrisOS.Kernel.Mm.Requests
import ChrisOS.Kernel.Kprintf
import ChrisOS.Kernel.Sched
import ChrisOS.Kernel.Sched.Runs
import ChrisOS.Kernel.Sched.Interleaving
import ChrisOS.Kernel.Sched.RoundRobin
import ChrisOS.Kernel.Sched.Slots
import ChrisOS.Kernel.Sched.Contexts
import ChrisOS.Kernel.Sched.Contexts.Invariant
import ChrisOS.Kernel.Sched.Contexts.Runs
import ChrisOS.Drivers.Ata
import ChrisOS.Fs.Fat32
import ChrisOS.Fs.Fat32.Effects
import ChrisOS.Fs.Fat32.Termination
import ChrisOS.Fs.Fat32.Volume
import ChrisOS.Fs.Fat32.Stages
import ChrisOS.Fs.Fat32.Directory
import ChrisOS.Fs.Fat32.WellFormed
import ChrisOS.Fs.Fat32.Calls
import ChrisOS.Fs.Fat32.Names
import ChrisOS.Fs.Fat32.Operations
import ChrisOS.Fs.Fat32.Orderly
import ChrisOS.Fs.Fat32.Runs
import ChrisOS.Fs.Fat32.Files
import ChrisOS.Fs.Fat32.Crash
import ChrisOS.Fs.Fat32.Bounds
import ChrisOS.Fs.Fat32.Faults
import ChrisOS.Fs.Fat32.Guarded
import ChrisOS.Fs.Fat32.Blocks
import ChrisOS.Fs.Fat32.Refusals
import ChrisOS.Fs.Fat32.Reads
import ChrisOS.Fs.Fat32.Unmounted
import ChrisOS.Fs.Fat32.Directories
import ChrisOS.Fs.Fat32.LongRoot
import ChrisOS.Fs.Fat32.Damage
import ChrisOS.Fs.Fat32.Table
import ChrisOS.Fs.Installer
import ChrisOS.Fs.Elf
import ChrisOS.Fs.Elf.Segments
import ChrisOS.Fs.Elf.Reads
import ChrisOS.Fs.Elf.Confined
import ChrisOS.Fs.Elf.Exec
import ChrisOS.Fs.Neutrality
import ChrisOS.Shell
import ChrisOS.Shell.Exhaustion
import ChrisOS.Net.Types
import ChrisOS.Net.Arp
import ChrisOS.Net.Arp.Cache
import ChrisOS.Net.Tcp
import ChrisOS.Net.Tcp.Demux
import ChrisOS.Net.Tcp.Stream
import ChrisOS.Net.Tcp.Closing
import ChrisOS.Net.Http
import ChrisOS.Net.Http.Ports
import ChrisOS.Net.Http.Reading
import ChrisOS.Net.Checksum
import ChrisOS.Net.Ipv4
import ChrisOS.Net.Udp
import ChrisOS.Net.Tcp.Raw
import ChrisOS.Net.Icmp
import ChrisOS.Net.Emission
import ChrisOS.Net.Tcp.Sends
import ChrisOS.Net.Icmp.Echo
import ChrisOS.Net.Dns
import ChrisOS.Net.Dns.Cache
import ChrisOS.Net.Dns.Message
import ChrisOS.Net.Dns.Answers
import ChrisOS.Net.Dns.Reads
import ChrisOS.Net.Dns.Queries
import ChrisOS.Net.Dns.Forgery
import ChrisOS.Net.Http.Url
import ChrisOS.Kernel.Syscall
import ChrisOS.Net.Dhcp
import ChrisOS.Net.Dhcp.Options
import ChrisOS.Net.Dhcp.Replies
import ChrisOS.Net.Dhcp.Transactions
import ChrisOS.Net.Waits
import ChrisOS.Net.Resolution
import ChrisOS.Net.Eth
import ChrisOS.Net.Eth.Layout
import ChrisOS.Net.Eth.Lengths
import ChrisOS.Net.Eth.Polling
import ChrisOS.Net.Eth.Offsets
import ChrisOS.Net.Eth.Transmit
import ChrisOS.Net.Eth.Pci
import ChrisOS.Shell.Ping
import ChrisOS.Shell.Editor
import ChrisOS.Drivers.Keyboard
import ChrisOS.Drivers.Keyboard.Typing
import ChrisOS.Drivers.Mouse
import ChrisOS.Kernel.Formatters
import ChrisOS.Lib.Bresenham
import ChrisOS.Lib.Counted
import ChrisOS.Lib.Sheet
import ChrisOS.Lib.Positions
import ChrisOS.Ui.Draw
import ChrisOS.Ui.Gterm
import ChrisOS.Kernel.Terminal
import ChrisOS.Shell.Display
import ChrisOS.Drivers.Ata.Channel
import ChrisOS.Drivers.Ata.Ports
import ChrisOS.Drivers.Ata.Transfers
import ChrisOS.Drivers.Ata.Calls
import ChrisOS.Drivers.Ata.Leftover
import ChrisOS.Fs.Installer.Ports
import ChrisOS.Lib.Canvas
import ChrisOS.Lib.Sprite
import ChrisOS.Drivers.Vesa
import ChrisOS.Drivers.Mouse.Cursor
